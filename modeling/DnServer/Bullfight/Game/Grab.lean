import DnServer.Bullfight.Game.Dispatch

/-!
# The game service: who may have the bank

`AllHaveGrabed` takes the wish for the bank from players who are too poor, but only as
far as its loop comes, only if they reported some money, and not at all when the timer
ends the grab. The banker is then drawn from everybody who still wants the bank.

* `grab_ends`: who the bank goes to, as one function of the records and the draw.
* `banker_qualified_iff`: on a timeout nobody is struck out; on the last answer those
  who are too poor are, except those who reported 0 (`answered_rich_iff`). A volunteer
  is drawn by some draw (`exists_draw`), so the condition is needed as well.
-/

namespace DnServer.Bullfight

open DnServer.Lib

namespace Game

/-! ## The table on which the banker is chosen -/

/-- The table on which the handler calls `NotifyTheGrab`, if it does. -/
def grabEnds (g : Game) : Mtype → Option Game
  | .timer .grabBanker => some g.forResPlayerGrab
  | .msg uid (.someOneGrab sign money) =>
    if (g.someOneGrab uid sign money).allHaveGrabed.2 then
      some (g.someOneGrab uid sign money).allHaveGrabed.1.forResPlayerGrab
    else none
  | _ => none

/-- The table of the grab with other records. -/
def Regrabbed (g u : Game) : Prop :=
  ∃ gp o, direct o = [] ∧ Table.Updated (fun _ => OnlyGrab) g.gameplayer gp ∧
    u = { g with gameplayer := gp, outbox := g.outbox ++ o }

variable {env : Env} {g u : Game} {m : Mtype}

theorem Regrabbed.refl (g : Game) : Regrabbed g g :=
  ⟨g.gameplayer, [], rfl, Table.Updated.refl fun _ v _ => OnlyGrab.refl v, by simp⟩

theorem Regrabbed.trans {v : Game} (h : Regrabbed g u) (h' : Regrabbed u v) : Regrabbed g v := by
  obtain ⟨gp, o, ho, hgp, rfl⟩ := h
  obtain ⟨gp', o', ho', hgp', rfl⟩ := h'
  refine ⟨gp', o ++ o', by rw [direct_append, ho, ho']; rfl,
    hgp.trans hgp' fun _ _ _ _ => OnlyGrab.trans, ?_⟩
  rw [← List.append_assoc]

theorem someOneGrab_regrabbed (g : Game) (uid : Uid) (sign : ℤ) {money : ℚ} (hm : 0 ≤ money) :
    Regrabbed g (g.someOneGrab uid sign money) := someOneGrab_spec g uid sign hm

theorem allHaveGrabed_regrabbed (g : Game) : Regrabbed g g.allHaveGrabed.1 := by
  obtain ⟨gp, b, hgp, hall⟩ := allHaveGrabed_spec g
  exact ⟨gp, [], rfl, hgp, by rw [hall, List.append_nil]⟩

theorem forResPlayerGrab_regrabbed (g : Game) : Regrabbed g g.forResPlayerGrab := by
  obtain ⟨o, ho, hres⟩ := forResPlayerGrab_spec g
  exact ⟨g.gameplayer, o, ho, Table.Updated.refl fun _ v _ => OnlyGrab.refl v, hres⟩

theorem grabEnds_regrabbed (h : Sound g m) (hu : g.grabEnds m = some u) : Regrabbed g u := by
  unfold grabEnds at hu
  split at hu
  · obtain rfl := Option.some.inj hu
    exact forResPlayerGrab_regrabbed g
  · rename_i uid sign money
    have hm : 0 ≤ money := h.reported uid _ money rfl rfl
    split at hu
    · obtain rfl := Option.some.inj hu
      exact ((someOneGrab_regrabbed g uid sign hm).trans (allHaveGrabed_regrabbed _)).trans
        (forResPlayerGrab_regrabbed _)
    · cases hu
  · cases hu

/-- The table on which the banker is chosen is in order. -/
theorem Regrabbed.sound (h : Sound g m) (hs : g.curstate = .grabTheBanker) (hu : Regrabbed g u) :
    Seated u ∧ MoneyNonneg u ∧ 0 < u.gameplayer.size := by
  obtain ⟨gp, o, -, hgp, rfl⟩ := hu
  refine ⟨⟨h.seated.1, h.seated.2, fun k v hv => ?_, h.seated.4,
    fun k hk => h.seated.5 k (hgp.mem.mp hk)⟩, fun k v hv => ?_, ?_⟩
  · obtain ⟨x, hx, hsame⟩ := hgp.get?_of_new hv
    exact hsame.uid.trans (h.seated.gameplayer_uid k x hx)
  · obtain ⟨x, hx, hsame⟩ := hgp.get?_of_new hv
    exact hsame.2 (h.money k x hx)
  · show 0 < gp.size
    rw [hgp.size]
    exact h.nonempty hs

theorem grabTheBanker_ends (env : Env) (hu : g.grabEnds m = some u) :
    g.grabTheBanker env m = u.notifyTheGrab env := by
  unfold grabEnds at hu
  split at hu
  · obtain rfl := Option.some.inj hu
    rfl
  · split at hu
    · rename_i hall
      obtain rfl := Option.some.inj hu
      exact if_pos hall
    · cases hu
  · cases hu

/-- The handler chooses the banker on this table, and the round goes on. -/
theorem grab_ends (env : Env) (h : Sound g m) (hs : g.curstate = .grabTheBanker)
    (hu : g.grabEnds m = some u) :
    ∃ b t, u.gameplayer.get? (u.chooseBanker env).banker = some b ∧
      g.grabTheBanker env m = .ok t ∧ Opening env (bankerChosen env u b) t := by
  obtain ⟨hseated, hmoney, hne⟩ := (grabEnds_regrabbed h hu).sound h hs
  obtain ⟨b, t, hb, ht, hopen⟩ := notifyTheGrab_chosen env hseated hmoney hne
  exact ⟨b, t, hb, (grabTheBanker_ends env hu).trans ht, hopen⟩

/-- Otherwise the grab goes on. -/
theorem grab_goesOn (env : Env) (h : Sound g m) (hu : g.grabEnds m = none) :
    ∃ t, g.grabTheBanker env m = .ok t ∧ Regrabbed g t := by
  cases m with
  | timer t =>
    cases t with
    | grabBanker => cases hu
    | _ => exact ⟨g, rfl, .refl g⟩
  | msg uid x =>
    cases x with
    | playerMoney money =>
      have hm : 0 ≤ money := h.reported uid _ money rfl rfl
      refine ⟨_, rfl, g.gameplayer.modify uid fun v => { v with money := money }, [], rfl,
        Table.updated_modify (fun _ v => OnlyGrab.refl v) fun v _ => ⟨rfl, fun _ => hm⟩, ?_⟩
      rw [List.append_nil]
      rfl
    | someOneGrab sign money =>
      have hm : 0 ≤ money := h.reported uid _ money rfl rfl
      by_cases hall : (g.someOneGrab uid sign money).allHaveGrabed.2 = true
      · rw [grabEnds, if_pos hall] at hu
        cases hu
      · exact ⟨_, if_neg hall,
          (someOneGrab_regrabbed g uid sign hm).trans (allHaveGrabed_regrabbed _)⟩
    | _ => exact ⟨g, rfl, .refl g⟩

/-! ## Who is drawn -/

theorem mem_grabers_iff (h : Seated u) {uid : Uid} :
    uid ∈ u.grabers ↔ ∃ v, u.gameplayer.get? uid = some v ∧ v.grabbanker = 1 := by
  unfold grabers
  rw [List.mem_filterMap]
  constructor
  · rintro ⟨p, hp, hpu⟩
    split at hpu
    · rename_i hgrab
      obtain rfl := Option.some.inj hpu
      rw [h.uid_of_pairs hp]
      exact ⟨p.2, Table.get?_of_mem_pairs hp, hgrab⟩
    · cases hpu
  · rintro ⟨v, hv, hgrab⟩
    exact ⟨(uid, v), Table.get?_eq_some.mp hv, by rw [if_pos hgrab, h.gameplayer_uid uid v hv]⟩

/-- Where somebody wants the bank, one of those who do gets it. -/
theorem chooseBanker_mem (env : Env) (hne : u.grabers ≠ []) : (u.chooseBanker env).banker ∈ u.grabers := by
  unfold chooseBanker
  cases hl : u.grabers with
  | nil => exact absurd hl hne
  | cons uid uids =>
    cases uids with
    | nil => exact List.mem_cons_self
    | cons w rest =>
      have hlt := Nat.mod_lt (env.rnd 0) (show 0 < (uid :: w :: rest).length by simp)
      show (uid :: w :: rest).getD _ uid ∈ _
      rw [List.getD_eq_getElem _ _ hlt]
      exact List.getElem_mem hlt

/-- Everybody who wants the bank gets it in some draw. -/
theorem exists_draw {uid : Uid} (hmem : uid ∈ u.grabers) :
    ∃ env, (u.chooseBanker env).banker = uid := by
  obtain ⟨i, hi, hget⟩ := List.getElem_of_mem hmem
  refine ⟨{ Env.quiet with rnd := fun _ => i }, ?_⟩
  unfold chooseBanker
  cases hl : u.grabers with
  | nil => simp [hl] at hi
  | cons w rest =>
    simp only [hl] at hi hget
    cases rest with
    | nil =>
      have hzero : i = 0 := by simpa using hi
      subst hzero
      exact hget
    | cons x rest =>
      show (w :: x :: rest).getD (i % (w :: x :: rest).length) w = uid
      rw [Nat.mod_eq_of_lt hi, List.getD_eq_getElem _ _ hi, hget]

/-- The choice is shown first unless a single player wanted the bank. -/
theorem chooseBanker_shown (env : Env) (hmany : ∀ uid, u.grabers ≠ [uid]) :
    (u.chooseBanker env).bankersourcetype = 1 ∨ (u.chooseBanker env).bankersourcetype = 2 := by
  unfold chooseBanker
  cases hl : u.grabers with
  | nil => exact .inl rfl
  | cons uid uids =>
    cases uids with
    | nil => exact absurd hl (hmany uid)
    | cons w rest => exact .inr rfl

theorem chooseBanker_single {uid : Uid} (env : Env) (hone : u.grabers = [uid]) :
    (u.chooseBanker env).banker = uid := by
  unfold chooseBanker
  rw [hone]

/-- While the choice is shown betting does not open. -/
theorem notifyTheGrab_shown {b : GamePlayer} (env : Env)
    (hb : u.gameplayer.get? (u.chooseBanker env).banker = some b)
    (hmany : ∀ uid, u.grabers ≠ [uid]) (hsit : 2 ≤ u.sitnum) :
    ∃ t, u.notifyTheGrab env = .ok t ∧ t.calls = u.calls := by
  have hopen : ((bankerChosen env u b).changeState .waitBet).openBet env = .ok _ :=
    if_pos (chooseBanker_shown env hmany)
  have hstart : (bankerChosen env u b).checkStartGame env = .ok _ :=
    (if_pos (show (bankerChosen env u b).sitnum ≥ 2 from hsit)).trans
      ((if_pos (by simp [bankerChosen])).trans (Handler.bind_of_ok hopen _))
  exact ⟨_, (notifyTheGrab_eq env hb).trans hstart, rfl⟩

/-! ## Who still wants the bank -/

/-- The test of `AllHaveGrabed`. -/
def TooPoor (basemoney : ℚ) (v : GamePlayer) : Prop := v.money ≠ 0 ∧ v.money < basemoney

instance (basemoney : ℚ) (v : GamePlayer) : Decidable (TooPoor basemoney v) :=
  inferInstanceAs (Decidable (_ ∧ _))

/-- A loop that does not stop takes the wish from everybody in the list who is too poor. -/
theorem allHaveGrabedFrom_true (basemoney : ℚ) : ∀ {l : List (Uid × GamePlayer)} {s : Game},
    (allHaveGrabedFrom basemoney l s).2 = true → ∀ k,
      (allHaveGrabedFrom basemoney l s).1.gameplayer.get? k = (s.gameplayer.get? k).map fun v =>
        if ∃ p ∈ l, p.1 = k ∧ TooPoor basemoney p.2 then { v with grabbanker := 2 } else v
  | [], s, _, k => by simp [allHaveGrabedFrom]
  | (j, v) :: rest, s, hall, k => by
    have hcons : (∃ p ∈ (j, v) :: rest, p.1 = k ∧ TooPoor basemoney p.2) ↔
        (j = k ∧ TooPoor basemoney v) ∨ ∃ p ∈ rest, p.1 = k ∧ TooPoor basemoney p.2 := by simp
    simp only [hcons]
    unfold allHaveGrabedFrom at hall ⊢
    by_cases hpoor : v.money ≠ 0 ∧ v.money < basemoney
    · rw [if_pos hpoor] at hall ⊢
      rw [allHaveGrabedFrom_true basemoney hall k]
      show ((s.gameplayer.modify j _).get? k).map _ = _
      rw [Table.get?_modify]
      by_cases hk : k = j
      · subst hk
        rw [if_pos rfl, Option.map_map]
        refine congrArg (Option.map · _) (funext fun w => ?_)
        rw [if_pos (.inl ⟨rfl, hpoor⟩)]
        show (if _ then _ else _) = _
        split <;> rfl
      · simp only [if_neg hk, Ne.symm hk, false_and, false_or]
    · have hnot : ¬ (j = k ∧ TooPoor basemoney v) := fun h => hpoor h.2
      rw [if_neg hpoor] at hall ⊢
      by_cases hzero : v.grabbanker = 0
      · rw [if_pos hzero] at hall
        cases hall
      · rw [if_neg hzero] at hall ⊢
        rw [allHaveGrabedFrom_true basemoney hall k]
        simp only [hnot, false_or]

/-- When everybody has answered, those who are too poor no longer want the bank. -/
theorem allHaveGrabed_get? (hall : g.allHaveGrabed.2 = true) (k : Uid) :
    g.allHaveGrabed.1.gameplayer.get? k = (g.gameplayer.get? k).map fun v =>
      if TooPoor (g.gameconf.basebet * 30) v then { v with grabbanker := 2 } else v := by
  unfold allHaveGrabed at hall ⊢
  rw [allHaveGrabedFrom_true _ hall k]
  cases hv : g.gameplayer.get? k with
  | none => rfl
  | some v =>
    refine congrArg some ?_
    have hiff : (∃ p ∈ g.gameplayer.pairs, p.1 = k ∧ TooPoor (g.gameconf.basebet * 30) p.2) ↔
        TooPoor (g.gameconf.basebet * 30) v := by
      constructor
      · rintro ⟨p, hp, rfl, hpoor⟩
        rw [Table.get?_of_mem_pairs hp] at hv
        exact Option.some.inj hv ▸ hpoor
      · exact fun hpoor => ⟨(k, v), Table.get?_eq_some.mp hv, rfl, hpoor⟩
    simp only [hiff]

/-! ## Who may have the bank -/

/-- Everybody who wants the bank on table `u` has thirty base bets. -/
def VolunteersRich (u : Game) : Prop := ∀ k v, u.gameplayer.get? k = some v → v.grabbanker = 1 →
  (u.gameconf.basebet : ℚ) * 30 ≤ v.money

/-- The records after an answer: that of the player alone, if there was none before. -/
theorem someOneGrab_get? (g : Game) (uid : Uid) (sign : ℤ) (money : ℚ) (k : Uid) :
    (g.someOneGrab uid sign money).gameplayer.get? k = (g.gameplayer.get? k).map fun v =>
      if k = uid ∧ v.grabbanker = 0 then { v with money := money, grabbanker := sign } else v := by
  have hsame : (∀ v, g.gameplayer.get? k = some v → ¬ (k = uid ∧ v.grabbanker = 0)) →
      g.gameplayer.get? k = (g.gameplayer.get? k).map fun v =>
        if k = uid ∧ v.grabbanker = 0 then { v with money := money, grabbanker := sign } else v := by
    intro hno
    cases hk : g.gameplayer.get? k with
    | none => rfl
    | some v => rw [Option.map_some, if_neg (hno v hk)]
  unfold someOneGrab
  cases hv : g.gameplayer.get? uid with
  | none =>
    refine hsame fun v hk => ?_
    rintro ⟨rfl, -⟩
    rw [hv] at hk
    cases hk
  | some plr =>
    by_cases hzero : plr.grabbanker = 0
    · simp only [if_pos hzero]
      show (g.gameplayer.modify uid _).get? k = _
      rw [Table.get?_modify]
      by_cases hk : k = uid
      · subst hk
        rw [if_pos rfl, hv, Option.map_some, Option.map_some, if_pos ⟨rfl, hzero⟩]
      · simp [hk]
    · simp only [if_neg hzero]
      refine hsame fun v hv' => ?_
      rintro ⟨rfl, h0⟩
      obtain rfl := Option.some.inj (hv.symm.trans hv')
      exact hzero h0

/-- What it takes that only players with thirty base bets can be drawn: when the timer ends the
grab, all who want the bank have them; when an answer does, none of them reported 0. -/
def Qualified (g : Game) : Mtype → Prop
  | .timer _ => VolunteersRich g
  | .msg uid (.someOneGrab sign money) =>
    (∀ k v, g.gameplayer.get? k = some v → v.grabbanker = 1 → v.money ≠ 0) ∧
      ∀ v, g.gameplayer.get? uid = some v → v.grabbanker = 0 → sign = 1 → money ≠ 0
  | .msg _ _ => True

/-- When the last answer ends the grab, those who want the bank are those who are not too poor,
and those who reported 0 pass for such. -/
theorem answered_rich_iff {uid : Uid} {sign : ℤ} {money : ℚ}
    (hconf : (g.someOneGrab uid sign money).gameconf = g.gameconf)
    (hall : (g.someOneGrab uid sign money).allHaveGrabed.2 = true) :
    VolunteersRich (g.someOneGrab uid sign money).allHaveGrabed.1 ↔
      ∀ k v, (g.someOneGrab uid sign money).gameplayer.get? k = some v → v.grabbanker = 1 →
        v.money ≠ 0 := by
  have hpos : (0 : ℚ) < (g.gameconf.basebet : ℚ) * 30 := by
    have := g.gameconf.basebet_pos
    positivity
  have hbase : (g.someOneGrab uid sign money).allHaveGrabed.1.gameconf = g.gameconf := by
    obtain ⟨gp, b, -, hres⟩ := allHaveGrabed_spec (g.someOneGrab uid sign money)
    rw [hres]
    exact hconf
  unfold VolunteersRich
  rw [hbase]
  constructor
  · intro hrich k v hv hgrab hzero
    have hnew := allHaveGrabed_get? hall k
    have hnot : ¬ TooPoor ((g.someOneGrab uid sign money).gameconf.basebet * 30) v :=
      fun hpoor => hpoor.1 hzero
    rw [hv, Option.map_some, if_neg hnot] at hnew
    have hle := hrich k v hnew hgrab
    rw [hzero] at hle
    exact absurd hpos (not_lt.mpr hle)
  · intro hnone k w hw hgrab
    rw [allHaveGrabed_get? hall k, Option.map_eq_some_iff] at hw
    obtain ⟨v, hv, rfl⟩ := hw
    by_cases hpoor : TooPoor ((g.someOneGrab uid sign money).gameconf.basebet * 30) v
    · rw [if_pos hpoor] at hgrab
      cases hgrab
    · rw [if_neg hpoor] at hgrab ⊢
      rw [hconf] at hpoor
      exact not_lt.mp fun hlt => hpoor ⟨hnone k v hv hgrab, hlt⟩

/-- Who wants the bank after an answer, by the records before it. -/
theorem answered_nonzero_iff (g : Game) (uid : Uid) (sign : ℤ) (money : ℚ) :
    (∀ k v, (g.someOneGrab uid sign money).gameplayer.get? k = some v → v.grabbanker = 1 →
      v.money ≠ 0) ↔ Qualified g (.msg uid (.someOneGrab sign money)) := by
  constructor
  · intro hnone
    refine ⟨fun k v hv hgrab => ?_, fun v hv hzero hsign => ?_⟩
    · have hget := someOneGrab_get? g uid sign money k
      have hne : ¬ (k = uid ∧ v.grabbanker = 0) := fun h => by simp [hgrab] at h
      rw [hv, Option.map_some, if_neg hne] at hget
      exact hnone k v hget hgrab
    · have hget := someOneGrab_get? g uid sign money uid
      rw [hv, Option.map_some, if_pos ⟨rfl, hzero⟩] at hget
      exact hnone uid _ hget hsign
  · rintro ⟨hold, hnew⟩ k w hw hgrab
    rw [someOneGrab_get?, Option.map_eq_some_iff] at hw
    obtain ⟨v, hv, rfl⟩ := hw
    by_cases hans : k = uid ∧ v.grabbanker = 0
    · rw [if_pos hans] at hgrab ⊢
      obtain ⟨rfl, hzero⟩ := hans
      exact hnew v hv hzero hgrab
    · rw [if_neg hans] at hgrab ⊢
      exact hold k v hv hgrab

/-- The condition decides whether every volunteer is rich enough. -/
theorem volunteersRich_iff (h : Sound g m) (hu : g.grabEnds m = some u) :
    VolunteersRich u ↔ Qualified g m := by
  unfold grabEnds at hu
  split at hu
  · obtain rfl := Option.some.inj hu
    obtain ⟨o, -, hres⟩ := forResPlayerGrab_spec g
    rw [hres]
    exact Iff.rfl
  · rename_i uid sign money
    split at hu
    · rename_i hall
      obtain rfl := Option.some.inj hu
      obtain ⟨gp, o, -, -, hans⟩ := someOneGrab_spec g uid sign (h.reported uid _ money rfl rfl)
      obtain ⟨o', -, hres⟩ := forResPlayerGrab_spec (g.someOneGrab uid sign money).allHaveGrabed.1
      rw [hres]
      exact (answered_rich_iff (by rw [hans]) hall).trans (answered_nonzero_iff g uid sign money)
    · cases hu
  · cases hu

/-! ## The choice in a run -/

/-- The table on which a dispatch calls `NotifyTheGrab`, if it does: no message that can end
the grab changes anything before its handler is called. -/
def notifies (g : Game) (e : Event) : Option Game :=
  if g.curstate = .grabTheBanker then
    match e with
    | .msg uid _ m => g.begin.grabEnds (.msg uid m)
    | .timeout n => g.timers.pending[n]?.bind fun p =>
      if g.timers.isLive p then
        ({ g with timers := g.timers.pop n } : Game).begin.grabEnds (.timer p.timerid)
      else none
    | _ => none
  else none

/-- The banker has reported thirty base bets. -/
def BankerQualified (g : Game) : Prop :=
  ∃ v, g.gameplayer.get? g.banker = some v ∧ (g.gameconf.basebet : ℚ) * 30 ≤ v.money

/-- A dispatch that ends the grab finds the table in it, whatever the environment. -/
theorem notifies_found {e : Event} (hu : g.notifies e = some u) :
    g.curstate = .grabTheBanker ∧ ∃ g' m, (∀ env, g.found env e = some (g', m)) ∧
      g'.grabEnds m = some u ∧ (Qualified g' m ↔ Qualified g m) := by
  unfold notifies at hu
  split_ifs at hu with hs
  refine ⟨hs, ?_⟩
  cases e with
  | msg uid address x =>
    cases x with
    | someOneGrab sign money => exact ⟨g.begin, _, fun _ => rfl, hu, Iff.rfl⟩
    | _ => cases hu
  | timeout n =>
    obtain ⟨p, hp, hu⟩ := Option.bind_eq_some_iff.mp hu
    split_ifs at hu with hlive
    refine ⟨_, _, fun env => ?_, hu, Iff.rfl⟩
    rw [found, hp, Option.bind_some, if_pos hlive]
  | update conf => cases hu
  | rehash => cases hu

/-- Where the handler ends the grab, the dispatch does. -/
theorem notifies_of_found {g' : Game} {e : Event} (hs : g.curstate = .grabTheBanker)
    (hf : g.found env e = some (g', m)) (hu : g'.grabEnds m = some u) : g.notifies e = some u := by
  unfold notifies
  rw [if_pos hs]
  cases e with
  | msg uid address x =>
    obtain ⟨rfl, rfl⟩ := Prod.mk.inj (Option.some.inj hf)
    cases x with
    | someOneGrab sign money => exact hu
    | _ => cases hu
  | timeout n =>
    obtain ⟨p, hp, hfire⟩ := Option.bind_eq_some_iff.mp hf
    split_ifs at hfire with hlive
    obtain ⟨rfl, rfl⟩ := Prod.mk.inj (Option.some.inj hfire)
    show g.timers.pending[n]?.bind _ = some u
    rw [hp, Option.bind_some, if_pos hlive]
    exact hu
  | update conf => cases hf
  | rehash => cases hf

/-- A dispatch that ends the grab calls the handler of the grab for what it handles. -/
theorem notifies_served {e : Event} (h : Inv g) (ha : Admissible g e)
    (hu : g.notifies e = some u) :
    ∃ g' m, g.handled e = some m ∧ Ready g' m ∧ g'.curstate = .grabTheBanker ∧
      g'.grabEnds m = some u ∧ (Qualified g' m ↔ Qualified g m) ∧
      ∀ t, system.step g e t ↔ ∃ env, t = Handler.after (g'.grabTheBanker env m) := by
  obtain ⟨hs, g', m, hfound, hends, hiff⟩ := notifies_found hu
  have hs' : g'.curstate = .grabTheBanker :=
    (found_found h (hfound .quiet)).curstate.trans hs
  refine ⟨g', m, handled_of_found (hfound .quiet), ready_found h ha (hfound .quiet), hs', hends,
    hiff, fun t => ?_⟩
  have hcmd : ∀ env, handle env g e = g'.grabTheBanker env m := fun env => by
    rw [handle_found (hfound env), command, hs']
  have hstep : system.step g e t ↔ ∃ env, t = Handler.after (handle env g e) := by
    cases e with
    | rehash => cases hfound .quiet
    | _ => exact and_iff_right ha
  simp only [hstep, hcmd]

/-- A round that goes on keeps its banker and its records. -/
theorem Opening.kept {t : Game} (h : Opening env g t) (hsit : 2 ≤ g.sitnum) :
    t.banker = g.banker ∧ t.gameplayer = g.gameplayer ∧ t.gameconf = g.gameconf := by
  cases h with
  | close hfew => omega
  | grab o _ _ _ => exact ⟨rfl, rfl, rfl⟩
  | animate _ _ _ => exact ⟨rfl, rfl, rfl⟩
  | bet o _ _ _ => exact ⟨rfl, rfl, rfl⟩

/-- A round in the grab has two seats taken. -/
theorem grabEnds_sitnum (h : Ready g m) (hs : g.curstate = .grabTheBanker)
    (hu : g.grabEnds m = some u) : 2 ≤ u.sitnum := by
  obtain ⟨gp, o, -, -, hres⟩ := grabEnds_regrabbed h.sound hu
  have hsize := Table.size_le_of_subset h.inv.seats.seated.gameplayer_seater
  have hcount := h.inv.seats.sitnum
  have htwo := (h.inv.grab hs).1
  rw [hres]
  show 2 ≤ g.sitnum
  omega

theorem bankerChosen_record {b : GamePlayer}
    (hb : u.gameplayer.get? (u.chooseBanker env).banker = some b) :
    (bankerChosen env u b).gameplayer.get? (bankerChosen env u b).banker =
      some { b with grabbanker := 0 } := by
  show (u.gameplayer.mapVal _).get? (u.chooseBanker env).banker = _
  rw [Table.get?_mapVal, hb]
  rfl

/-- What the banker chosen has reported. -/
theorem grab_ends_qualified (h : Ready g m) (hs : g.curstate = .grabTheBanker)
    (hu : g.grabEnds m = some u) (env : Env) :
    ∃ b, u.gameplayer.get? (u.chooseBanker env).banker = some b ∧
      (BankerQualified (Handler.after (g.grabTheBanker env m)) ↔
        (u.gameconf.basebet : ℚ) * 30 ≤ b.money) := by
  obtain ⟨b, t, hb, ht, hopen⟩ := grab_ends env h.sound hs hu
  obtain ⟨hbanker, hrecords, hconf⟩ := hopen.kept
    (show 2 ≤ u.sitnum from grabEnds_sitnum h hs hu)
  have hnew : t.gameplayer.get? t.banker = some { b with grabbanker := 0 } := by
    rw [hbanker, hrecords]
    exact bankerChosen_record hb
  refine ⟨b, hb, ?_⟩
  rw [ht]
  show BankerQualified t ↔ _
  unfold BankerQualified
  rw [hnew, hconf]
  constructor
  · rintro ⟨v, hv, hle⟩
    obtain rfl := Option.some.inj hv
    exact hle
  · exact fun hle => ⟨_, rfl, hle⟩

/-- **The banker's qualification.** Whenever the grab ends with volunteers, the banker drawn
from them has reported thirty base bets in every draw, just when the condition holds of the
records before: on a timeout every volunteer has them, on an answer no volunteer reported 0. -/
theorem banker_qualified_iff {e : Event} (h : system.Reachable g) (ha : Admissible g e)
    (hu : g.notifies e = some u) :
    (u.grabers ≠ [] → ∀ t, system.step g e t → BankerQualified t) ↔
      ∀ m, g.handled e = some m → Qualified g m := by
  have hinv := inv_invariant g h
  obtain ⟨g', m, hm, hready, hs, hu', hiff, hstep⟩ := notifies_served hinv ha hu
  have hcond : (∀ m, g.handled e = some m → Qualified g m) ↔ VolunteersRich u := by
    rw [volunteersRich_iff hready.sound hu', hiff]
    constructor
    · exact fun hall => hall m hm
    · intro hq m' hm'
      obtain rfl := Option.some.inj (hm.symm.trans hm')
      exact hq
  have hseated := ((grabEnds_regrabbed hready.sound hu').sound hready.sound hs).1
  rw [hcond]
  constructor
  · intro hall k v hv hgrab
    have hmem : k ∈ u.grabers := (mem_grabers_iff hseated).mpr ⟨v, hv, hgrab⟩
    obtain ⟨env, henv⟩ := exists_draw hmem
    obtain ⟨b, hb, hqual⟩ := grab_ends_qualified hready hs hu' env
    rw [henv, hv] at hb
    obtain rfl := Option.some.inj hb
    exact hqual.mp (hall (List.ne_nil_of_mem hmem) _ ((hstep _).mpr ⟨env, rfl⟩))
  · intro hrich hne t ht
    obtain ⟨env, rfl⟩ := (hstep t).mp ht
    obtain ⟨b, hb, hqual⟩ := grab_ends_qualified hready hs hu' env
    obtain ⟨v, hv, hgrab⟩ := (mem_grabers_iff hseated).mp (chooseBanker_mem env hne)
    obtain rfl := Option.some.inj (hb.symm.trans hv)
    exact hqual.mpr (hrich _ _ hv hgrab)

/-- The second player alone answers, and has that much. -/
def oneAnswer (money : ℚ) : List Event := twoSit ++ [.msg 2 102 (.someOneGrab 1 money)]

/-- The records of the grab, and whether its timer is about to end it. -/
def grabShown (g : Game) : List (Uid × ℤ × ℚ) × Bool :=
  (g.gameplayer.pairs.map fun p => (p.1, p.2.grabbanker, p.2.money),
    (g.notifies (.timeout 0)).any fun u => u.grabers ≠ [])

/-- A volunteer with forty base bets has the bank when the timer ends the grab. -/
theorem banker_qualified_rich : ∃ g, system.Reachable g ∧
    ∀ t, system.step g (.timeout 0) t → BankerQualified t := by
  obtain ⟨g, hg, hend⟩ := TSys.reachable_of_exec (T := system) (l := oneAnswer 2000)
    (p := fun g => decide (grabShown g = ([(1, 0, 0), (2, 1, 2000)], true) ∧
      g.gameconf.basebet = 50)) (exec_step .quiet) (s := creatGame .base50) ⟨_, rfl⟩
    (by decide +kernel)
  obtain ⟨hshown, hbase⟩ := of_decide_eq_true hend
  obtain ⟨hrecords, hnotifies⟩ := Prod.mk.inj hshown
  obtain ⟨u, hu, hne⟩ := (Option.any_eq_true _ _).mp hnotifies
  have hrich : VolunteersRich g := by
    intro k v hv hgrab
    have hmem : (k, v.grabbanker, v.money) ∈ [((1 : Uid), (0 : ℤ), (0 : ℚ)), (2, 1, 2000)] :=
      hrecords ▸ List.mem_map_of_mem (f := fun p : Uid × GamePlayer => (p.1, p.2.grabbanker,
        p.2.money)) (Table.get?_eq_some.mp hv)
    simp only [List.mem_cons, Prod.mk.injEq, List.not_mem_nil, or_false] at hmem
    rcases hmem with ⟨-, hzero, -⟩ | ⟨-, -, hmoney⟩
    · rw [hgrab] at hzero
      cases hzero
    · rw [hmoney, hbase]
      norm_num
  refine ⟨g, hg, (banker_qualified_iff (e := .timeout 0) hg trivial hu).mpr (fun m hm => ?_)
    (of_decide_eq_true hne)⟩
  obtain ⟨p, -, hlive⟩ := Option.bind_eq_some_iff.mp hm
  split_ifs at hlive
  obtain rfl := Option.some.inj hlive
  exact hrich

/-- The timer is about to end the grab, and the banker then has two base bets. -/
def poorDrawn (g : Game) : Bool :=
  g.grabShown.2 && (exec .quiet g (.timeout 0)).any fun t => t.gameconf.basebet = 50 &&
    (t.gameplayer.get? t.banker).all fun v => v.money = 100

/-- A volunteer with two base bets gets the bank when the loop that would pass it over ended
at a player who had not answered. -/
theorem poor_banker : ∃ g, system.Reachable g ∧ Admissible g (.timeout 0) ∧
    (∃ u, g.notifies (.timeout 0) = some u ∧ u.grabers ≠ []) ∧
    ∃ t, system.step g (.timeout 0) t ∧ ¬ BankerQualified t := by
  obtain ⟨g, hg, hend⟩ := TSys.reachable_of_exec (T := system) (l := oneAnswer 100)
    (p := poorDrawn) (exec_step .quiet) (s := creatGame .base50) ⟨_, rfl⟩ (by decide +kernel)
  obtain ⟨hnotifies, hstep⟩ := Bool.and_eq_true_iff.mp hend
  obtain ⟨u, hu, hne⟩ := (Option.any_eq_true _ _).mp hnotifies
  obtain ⟨t, ht, hpoor⟩ := (Option.any_eq_true _ _).mp hstep
  obtain ⟨hbase, hmoney⟩ := Bool.and_eq_true_iff.mp hpoor
  refine ⟨g, hg, trivial, ⟨u, hu, of_decide_eq_true hne⟩, t, exec_step .quiet g _ t ht, ?_⟩
  rintro ⟨v, hv, hle⟩
  rw [hv] at hmoney
  rw [of_decide_eq_true hbase, of_decide_eq_true hmoney] at hle
  norm_num at hle

end Game

end DnServer.Bullfight
