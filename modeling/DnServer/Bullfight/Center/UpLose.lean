import DnServer.Bullfight.Center.Ledger

/-!
# The day's losses over logins and logouts

`noteReports` keeps for every player the loss its agent last reported on the day, until
the player's next login, and for every login what was handed out; `noteCopy` keeps whose
reports each agent's copy has missed. An agent reports the whole ledger it was given at
its own login, and the center takes it over as a whole: what another player has reported
in between is gone.

* `holds_step`: every copy of the ledger (with an agent, on the way to it, on the way
  back) has each report that its agent has not missed, apart from the owner's own entry.
* `survives_of_inTurn`: a report taken over in its turn has missed none that stands, so
  the center keeps them all (`InTurn.carries`).
-/

namespace DnServer.Bullfight

open DnServer.Lib

namespace PlayerCenter

open RoomService (Uplose)

/-! ## What is reported and what is handed out -/

/-- A player's losses of a day, by room. -/
abbrev Loss := Table RoomId ℚ

/-- A successful login: what was reported last, and what the center handed out. -/
structure Returned where
  uid : Uid
  reported : Option Loss
  handed : Option Loss
deriving DecidableEq

structure Reports where
  /-- What a player's agent last reported on the day, if it has not logged in since. -/
  reported : Table Uid Loss
  logins : List Returned
deriving DecidableEq

/-- The player a ledger reports a loss of, with the loss: the agent's, if the ledger
has an entry for it. -/
def ownReport (uplose : Option Uplose) (who : Option (Uid × SessionId)) : Option (Uid × Loss) :=
  who.bind fun w => (lost uplose w.1).map fun l => (w.1, l)

/-- The center serves the handler's message. -/
def reportsBy (c : Center) (env : Env) (r : Reports) : Suspended → Reports
  | ⟨a, .asking uid sessionid ptype⟩ =>
    match (eventLogin c env.now a uid sessionid ptype).2 with
    | some reply =>
      if reply.ret = 0 then
        ⟨r.reported.erase uid,
          ⟨uid, r.reported.get? uid, lost reply.uplose uid⟩ :: r.logins⟩
      else r
    | none => r
  | ⟨_, .reporting uplose who⟩ =>
    match ownReport uplose who with
    | some (uid, l) => { r with reported := r.reported.set uid l }
    | none => r
  | _ => r

def noteReports (s : State) (e : Event) (_t : State) (r : Reports) : Reports :=
  match e with
  | .advance _ env => (handlerOf s e).elim r (reportsBy s.center env r)
  | .newDay => { r with reported := Table.empty }
  | _ => r

/-- The center with its agents, and a note of reports and logins. -/
def ledger : TSys (State × Reports) Event :=
  system.observe (fun _ => ⟨Table.empty, []⟩) noteReports

/-- Every login was handed the loss that was reported. -/
def Survives (p : State × Reports) : Prop :=
  ∀ x ∈ p.2.logins, ∀ l, x.reported = some l → x.handed = some l

/-- What was reported stands in the center's ledger for the next login. -/
def Kept (p : State × Reports) : Prop :=
  ∀ v l, p.2.reported.get? v = some l → lost p.1.center.uplose v = some l

/-- The ledger a handler has sent, and the player it is from. -/
def Suspended.ledger : Suspended → Option (Option Uplose × Option (Uid × SessionId))
  | ⟨_, .reporting uplose who⟩ => some (uplose, who)
  | _ => none

/-- A ledger the center takes over carries what was reported that day for other
players, if they have not logged in since. -/
def Carries (p : State × Reports) (e : Event) : Prop :=
  ∀ x ∈ (handlerOf p.1 e).bind Suspended.ledger, ∀ v l,
    (ownReport x.1 x.2).map Prod.fst ≠ some v → p.2.reported.get? v = some l →
      lost x.1 v = some l

/-! ## What a step does to the ledger -/

theorem lost_ownReport {uplose : Option Uplose} {who : Option (Uid × SessionId)} {r : Uid × Loss}
    (h : ownReport uplose who = some r) : lost uplose r.1 = some r.2 := by
  obtain ⟨w, _, hw⟩ := Option.bind_eq_some_iff.mp h
  obtain ⟨l, hl, rfl⟩ := Option.map_eq_some_iff.mp hw
  exact hl

/-- A step leaves the ledger and the reports alone, or starts a day, or hands the
ledger out, or takes one over. -/
inductive Books (p : State × Reports) (e : Event) (q : State × Reports) : Prop
  | same : Carries p e → q.1.center.uplose = p.1.center.uplose → q.2 = p.2 → Books p e q
  | newDay : Carries p e → q.2 = { p.2 with reported := Table.empty } → Books p e q
  | handed (uid : Uid) : Carries p e → q.1.center.uplose = p.1.center.uplose →
      q.2 = ⟨p.2.reported.erase uid,
        ⟨uid, p.2.reported.get? uid, lost p.1.center.uplose uid⟩ :: p.2.logins⟩ → Books p e q
  | taken (a : Address) (uplose : Option Uplose) (who : Option (Uid × SessionId)) :
      handlerOf p.1 e = some ⟨a, .reporting uplose who⟩ → q.1.center.uplose = uplose →
      q.2.logins = p.2.logins →
      (∀ v, q.2.reported.get? v = if (ownReport uplose who).map Prod.fst = some v then
        lost uplose v else p.2.reported.get? v) → Books p e q

/-- The messages the ledger is not about leave it alone. -/
theorem Serves.uplose {s t : Center} {i : ℕ} {env : Env} {h : Suspended}
    (hserves : Serves s t (.advance i env) (some h))
    (hphase : ∀ uplose who, h.phase ≠ .reporting uplose who) : t.uplose = s.uplose := by
  cases hserves with
  | other hsame => rw [hsame]
  | @login _ _ a uid sessionid ptype hlogin =>
    rw [hlogin]
    rcases eventLogin_cases s env.now a uid sessionid ptype with
      ⟨ret, _, hcase⟩ | ⟨player, _, hcase⟩ | ⟨_, _, hcase⟩ <;> rw [hcase]
  | redirected hredirected =>
    obtain ⟨player, _, hcenter⟩ := Option.map_eq_some_iff.mp hredirected
    rw [← (Prod.mk.inj hcenter).1]
  | raised hsame => rw [hsame]
  | @lock _ _ a uid sessionid hlock =>
    rw [hlock]
    unfold eventLock
    cases s.all_player.get? uid with
    | none => rfl
    | some player =>
      show (if _ then _ else _ : Center × Bool).1.uplose = _
      split_ifs <;> rfl
  | unlock hunlock => rw [hunlock]; rfl
  | loginOut hout => rw [hout]; rfl
  | updateUplose => exact absurd rfl (hphase _ _)

theorem ledger_books {p q : State × Reports} {e : Event} (h : ledger.step p e q) :
    Books p e q := by
  obtain ⟨hexec, hnote⟩ := h
  -- a report changes the books; whatever else is served leaves the ledger as it is
  have hserves := exec_serves hexec
  cases e with
  | advance i env =>
    have hnote : q.2 = (handlerOf p.1 (.advance i env)).elim p.2
      (reportsBy p.1.center env p.2) := hnote
    cases hh : handlerOf p.1 (.advance i env) with
    | none =>
      have hcalm : Carries p (.advance i env) := by
        unfold Carries
        rw [hh]
        nofun
      rw [hh] at hserves hnote
      cases hserves with
      | other hsame => exact .same hcalm (by rw [hsame]) hnote
    | some x =>
      rw [hh] at hserves hnote
      obtain ⟨a, phase⟩ := x
      cases phase with
      | asking uid sessionid ptype =>
        have hcalm : Carries p (.advance i env) := by
          unfold Carries
          rw [hh]
          nofun
        have hsame := hserves.uplose nofun
        have hnote : q.2 = reportsBy p.1.center env p.2 ⟨a, .asking uid sessionid ptype⟩ := hnote
        unfold reportsBy at hnote
        rcases eventLogin_cases p.1.center env.now a uid sessionid ptype with
          ⟨ret, hret, hcase⟩ | ⟨player, _, hcase⟩ | ⟨_, _, hcase⟩
        · simp only [hcase] at hnote
          exact .same hcalm hsame (hnote.trans (if_neg hret))
        · simp only [hcase] at hnote
          exact .same hcalm hsame hnote
        · simp only [hcase] at hnote
          exact .handed uid hcalm hsame (hnote.trans (if_pos trivial))
      | reporting uplose who =>
        have hnote : q.2 = reportsBy p.1.center env p.2 ⟨a, .reporting uplose who⟩ := hnote
        unfold reportsBy at hnote
        refine .taken a uplose who hh ?_ ?_ ?_
        · cases hserves with
          | other _ hquiet => cases hquiet _ rfl
          | updateUplose hup => rw [hup]; rfl
        · cases hr : ownReport uplose who with
          | none =>
            simp only [hr] at hnote
            rw [hnote]
          | some r =>
            simp only [hr] at hnote
            rw [hnote]
        · intro v
          cases hr : ownReport uplose who with
          | none =>
            simp only [hr] at hnote
            rw [hnote, if_neg nofun]
          | some r =>
            simp only [hr] at hnote
            rw [hnote, Table.get?_set, Option.map_some]
            by_cases hv : v = r.1
            · subst hv
              rw [if_pos rfl, if_pos rfl, lost_ownReport hr]
            · rw [if_neg hv, if_neg fun h => hv (Option.some.inj h).symm]
      | _ =>
        refine .same ?_ (hserves.uplose nofun) hnote
        unfold Carries
        rw [hh]
        nofun
  | newDay => exact .newDay nofun hnote
  | blockPlayer uid endtime =>
    refine .same nofun ?_ hnote
    cases hserves with
    | other hsame => rw [hsame]
    | blockPlayer hblock => rw [hblock]; rfl
  | serverClose =>
    refine .same nofun ?_ hnote
    cases hserves with
    | other hsame => rw [hsame]
    | serverClose hclose => rw [hclose]; rfl
  | _ =>
    cases hserves with
    | other hsame => exact .same nofun (by rw [hsame]) hnote

/-! ## Reports that survive -/

/-- A step keeps what was reported in the center's ledger if a ledger that is taken over
carries it. -/
theorem Books.kept {p q : State × Reports} {e : Event} (h : Books p e q) (hp : Kept p)
    (hcarries : Carries p e) : Kept q := by
  intro v l hv
  cases h with
  | same _ huplose hreports =>
    rw [hreports] at hv
    rw [huplose]
    exact hp v l hv
  | newDay _ hreports =>
    rw [hreports] at hv
    cases hv
  | handed uid _ huplose hreports =>
    rw [hreports, Table.get?_erase] at hv
    rw [huplose]
    by_cases hvu : v = uid
    · rw [if_pos hvu] at hv
      cases hv
    · rw [if_neg hvu] at hv
      exact hp v l hv
  | taken a uplose who hh huplose _ hreported =>
    rw [huplose]
    rw [hreported] at hv
    by_cases hown : (ownReport uplose who).map Prod.fst = some v
    · rwa [if_pos hown] at hv
    · rw [if_neg hown] at hv
      exact hcarries (uplose, who) (by rw [hh]; rfl) v l hown hv

/-- What the logins were handed stays true, and a new one is handed what is kept. -/
theorem Books.survives {p q : State × Reports} {e : Event} (h : Books p e q) (hp : Kept p)
    (hsurvives : Survives p) : Survives q := by
  cases h with
  | same _ _ hreports =>
    unfold Survives
    rw [hreports]
    exact hsurvives
  | newDay _ hreports =>
    unfold Survives
    rw [hreports]
    exact hsurvives
  | handed uid _ _ hreports =>
    intro x hx l hl
    rw [hreports] at hx
    rcases List.mem_cons.mp hx with rfl | hold
    · exact hp uid l hl
    · exact hsurvives x hold l hl
  | taken _ _ _ _ _ hlogins =>
    unfold Survives
    rw [hlogins]
    exact hsurvives

/-! ## Whose reports a copy has missed -/

/-- What an agent has of the ledger. -/
structure Copy where
  /-- Whose reports the center has taken over since it handed the agent its ledger. -/
  missed : List Uid
  /-- The agent has taken the answer to its login, and no new day since. -/
  held : Bool

abbrev Copies := Address → Copy

/-- An answer to the login of agent `a` is under way. -/
def Suspended.answers (a : Address) : Suspended → Bool
  | ⟨b, .answered _ _⟩ => b = a
  | _ => false

/-- A report of agent `a` is under way. -/
def Suspended.reports (a : Address) : Suspended → Bool
  | ⟨b, .reporting _ _⟩ => b = a
  | _ => false

/-- A handler that goes on: an answer brings a copy, a new day takes it, and a report
that is taken over is missing in every copy that was handed out before. -/
def copyBy (s : State) (e : Event) (c : Copies) : Suspended → Copies
  | ⟨a, .asking _ _ _⟩ =>
    -- an agent asks once, so no answer is under way to it
    if handedTo s e = some a ∧ ¬ s.handlers.any (Suspended.answers a) then
      Function.update c a ⟨[], false⟩
    else c
  | ⟨a, .answered _ reply⟩ =>
    Function.update c a
      { c a with held := reply.ret = 0 ∧ ¬ s.handlers.any (Suspended.reports a) }
  | ⟨a, .newDay⟩ => Function.update c a { c a with held := false }
  | ⟨_, .reporting _ who⟩ => who.elim c fun w a => { c a with missed := w.1 :: (c a).missed }
  | _ => c

def noteCopy (s : State) (e : Event) (c : Copies) : Copies :=
  match e with
  | .connect a _ _ _ => Function.update c a { c a with held := false }
  | _ => (handlerOf s e).elim c (copyBy s e c)

/-- The ledger, and what the agents have of it. -/
def copies : TSys ((State × Reports) × Copies) Event :=
  ledger.observe (fun _ _ => ⟨[], false⟩) fun p e _ c => noteCopy p.1 e c

/-- A report is taken over from an agent that holds the ledger it was handed that day, and
whose copy has missed no other player's report that still stands. -/
def InTurn (p : (State × Reports) × Copies) (e : Event) : Prop :=
  ∀ x ∈ handlerOf p.1.1 e, ∀ y ∈ x.ledger, ∀ v ∈ p.1.2.reported.keys,
    (p.2 x.address).held = true ∧ (v ∈ (p.2 x.address).missed → y.2.map Prod.fst = some v)

/-- A ledger that is handed out or sent has the reports it has not missed, up to its
owner's. -/
def Carried (reported : Table Uid Loss) (missed : List Uid) (owner : Option Uid)
    (uplose : Option Uplose) : Prop :=
  ∀ v l, reported.get? v = some l → v ∉ missed → owner ≠ some v → lost uplose v = some l

/-- In the owner's hands, with an entry of its own. -/
def Owned (reported : Table Uid Loss) (missed : List Uid) (owner : Option Uid)
    (uplose : Option Uplose) : Prop :=
  Carried reported missed owner uplose ∧ ∀ u, owner = some u → (lost uplose u).isSome

/-- The copies of agent `a`: on the way to it, on the way back, and its own. -/
structure Holds (p : (State × Reports) × Copies) (a : Address) : Prop where
  answers : ∀ uid reply, reply.ret = 0 → ⟨a, .answered uid reply⟩ ∈ p.1.1.handlers →
    Carried p.1.2.reported (p.2 a).missed (some uid) reply.uplose
  reports : (p.2 a).held = true → ∀ uplose who, ⟨a, .reporting uplose who⟩ ∈ p.1.1.handlers →
    Owned p.1.2.reported (p.2 a).missed (who.map Prod.fst) uplose
  agents : (p.2 a).held = true → ∀ g, live p.1.1 a = some g →
    Owned p.1.2.reported (p.2 a).missed g.uid g.uplose

/-- Reports end or are missed. -/
theorem Carried.fewer {r r' : Table Uid Loss} {missed missed' : List Uid} {owner : Option Uid}
    {uplose : Option Uplose} (h : Carried r missed owner uplose)
    (hfewer : ∀ v l, r'.get? v = some l → v ∉ missed' → r.get? v = some l ∧ v ∉ missed) :
    Carried r' missed' owner uplose := by
  intro v l hv hm hne
  obtain ⟨hv', hm'⟩ := hfewer v l hv hm
  exact h v l hv' hm' hne

/-- The owner writes its own entry. -/
theorem Owned.grown {r : Table Uid Loss} {missed : List Uid} {g g' : Agent}
    (h : Owned r missed g.uid g.uplose) (hown : OwnEntry g g') :
    Owned r missed g'.uid g'.uplose := by
  rw [hown.uid]
  refine ⟨fun v l hv hm hne => ?_, fun u hu => hown.own u hu (h.2 u hu)⟩
  rw [hown.others v hne]
  exact h.1 v l hv hm hne

/-- A report in its turn carries what stands. -/
theorem InTurn.carries {p : (State × Reports) × Copies} {e : Event} (h : InTurn p e)
    (hholds : ∀ a, Holds p a) : Carries p.1 e := by
  intro y hy v l hown hv
  obtain ⟨⟨a, phase⟩, hx, hphase⟩ := Option.bind_eq_some_iff.mp hy
  obtain ⟨hheld, hmissed⟩ := h _ hx y hphase v (Table.mem_iff_get?.mpr ⟨l, hv⟩)
  cases phase with
  | reporting uplose who =>
    obtain rfl := Option.some.inj hphase
    have hmem : (⟨a, .reporting uplose who⟩ : Suspended) ∈ p.1.1.handlers := by
      cases e with
      | advance i env => exact List.mem_of_getElem? hx
      | _ => cases hx
    obtain ⟨hcarried, hentry⟩ := (hholds a).reports hheld uplose who hmem
    -- the reporting agent has an entry of its own, so its report is noted as its player's
    have howner : who.map Prod.fst ≠ some v := by
      intro hwho
      obtain ⟨w, rfl, rfl⟩ := Option.map_eq_some_iff.mp hwho
      obtain ⟨m, hm⟩ := Option.isSome_iff_exists.mp (hentry w.1 rfl)
      exact hown (by simp [ownReport, hm])
    exact hcarried v l hv (fun hm => howner (hmissed hm)) howner
  | _ => cases hphase

/-- Copies are passed on, reports end or are missed. -/
theorem Holds.passes {p q : (State × Reports) × Copies} {a : Address} (h : Holds p a)
    (hpass : Passes a ((q.2 a).held = true) p.1.1 q.1.1)
    (hheld : (q.2 a).held = true → (p.2 a).held = true)
    (hfewer : ∀ v l, q.1.2.reported.get? v = some l → v ∉ (q.2 a).missed →
      p.1.2.reported.get? v = some l ∧ v ∉ (p.2 a).missed) : Holds q a := by
  constructor
  · exact fun uid reply hret hm =>
      (h.answers uid reply hret (hpass.answers uid reply hret hm)).fewer hfewer
  · intro hq uplose who hm
    rcases hpass.reports hq uplose who hm with hold | ⟨g, g', hg, hown, rfl, hwho⟩
    · obtain ⟨hc, hentry⟩ := h.reports (hheld hq) uplose who hold
      exact ⟨hc.fewer hfewer, hentry⟩
    · obtain ⟨hc, hentry⟩ := (h.agents (hheld hq) g hg).grown hown
      rw [hwho]
      exact ⟨hc.fewer hfewer, hentry⟩
  · intro hq g' hg'
    obtain ⟨g, hg, hown⟩ := hpass.agents hq g' hg'
    obtain ⟨hc, hentry⟩ := (h.agents (hheld hq) g hg).grown hown
    exact ⟨hc.fewer hfewer, hentry⟩

theorem lost_takeLedger (g : Agent) (uid : Uid) (uplose : Option Uplose) :
    (lost (g.takeLedger uid uplose).uplose uid).isSome ∧
      ∀ v, v ≠ uid → lost (g.takeLedger uid uplose).uplose v = lost uplose v := by
  have hget : ∀ v, lost uplose v = (uplose.getD Table.empty).get? v := by
    intro v
    cases uplose <;> rfl
  unfold Agent.takeLedger
  simp only [hget]
  split
  · exact ⟨Option.isSome_iff_exists.mpr ⟨_, Table.get?_set_self _ _ _⟩,
      fun v hv => Table.get?_set_ne _ _ hv⟩
  · rename_i mine hmine
    exact ⟨Option.isSome_iff_exists.mpr ⟨mine, hmine⟩, fun _ _ => rfl⟩

theorem exec_advance {s t : State} {i : ℕ} {env : Env} {x : Suspended}
    (h : exec s (.advance i env) = some t) (hh : handlerOf s (.advance i env) = some x) :
    t = advance env { s with handlers := s.handlers.eraseIdx i } x.address x.phase := by
  unfold exec at h
  split at h
  · cases h
  · obtain ⟨y, hy, hgoes⟩ := Option.map_eq_some_iff.mp h
    obtain rfl := Option.some.inj (hy.symm.trans hh)
    exact hgoes.symm

theorem loginAnswered_zero {s : State} {a : Address} {uid : Uid} {reply : LoginReply}
    (hret : reply.ret = 0) :
    (∀ g, live (loginAnswered s a uid reply) a = some g → g.uid = some uid ∧
      ∃ f : Agent, g.uplose = (f.takeLedger uid reply.uplose).uplose) ∧
    ∀ uplose who, ⟨a, .reporting uplose who⟩ ∈ (loginAnswered s a uid reply).handlers →
      ⟨a, .reporting uplose who⟩ ∈ s.handlers := by
  unfold loginAnswered
  cases hlive : live s a with
  | none => exact ⟨fun g hg => absurd (hlive.symm.trans hg) nofun, fun _ _ hm => hm⟩
  | some f =>
    simp only [if_pos hret]
    constructor
    · intro g hg
      have hget := (live_eq_some.mp hg).1
      rw [State.suspend, State.setAgent, Table.get?_modify_self] at hget
      obtain ⟨f, -, rfl⟩ := Option.map_eq_some_iff.mp hget
      exact ⟨rfl, f, rfl⟩
    · intro uplose who hm
      rcases List.mem_append.mp hm with hold | hnew
      · exact hold
      · cases List.mem_singleton.mp hnew

/-- An agent takes the answer to its login, and with it a copy. -/
theorem Holds.answered {p q : (State × Reports) × Copies} {e : Event} {a : Address} {uid : Uid}
    {reply : LoginReply} (h : Holds p a)
    (hh : handlerOf p.1.1 e = some ⟨a, .answered uid reply⟩) (hstep : copies.step p e q)
    (hq : (q.2 a).held = true) : Holds q a := by
  obtain ⟨⟨hexec, hreports⟩, hcopies⟩ := hstep
  cases e with
  | advance i env =>
    have hreports : q.1.2 = p.1.2 := by
      rw [hreports, noteReports, hh]
      rfl
    have hcopy : q.2 a = { p.2 a with
        held := reply.ret = 0 ∧ ¬ p.1.1.handlers.any (Suspended.reports a) } := by
      rw [hcopies]
      simp only [noteCopy, hh, Option.elim_some, copyBy, Function.update_self]
    rw [hcopy] at hq
    obtain ⟨hret, hnone⟩ := of_decide_eq_true hq
    have hpass : Passes a False p.1.1 q.1.1 :=
      exec_passes hexec (by simp [handedTo, hh]) False.elim
    have hafter : q.1.1 =
        loginAnswered { p.1.1 with handlers := p.1.1.handlers.eraseIdx i } a uid reply :=
      exec_advance hexec hh
    obtain ⟨hagent, hsent⟩ := @loginAnswered_zero
      { p.1.1 with handlers := p.1.1.handlers.eraseIdx i } a uid reply hret
    rw [← hafter] at hagent hsent
    refine ⟨?_, ?_, ?_⟩ <;> rw [hreports, hcopy]
    · intro uid' reply' hret' hm
      exact h.answers uid' reply' hret' (hpass.answers uid' reply' hret' hm)
    · -- no report was on its way back
      intro _ uplose who hm
      have hold := List.mem_of_mem_eraseIdx (hsent uplose who hm)
      exact absurd (List.any_eq_true.mpr ⟨_, hold, decide_eq_true rfl⟩) hnone
    · -- the agent goes on with what it is answered
      intro _ g hg
      obtain ⟨huid, f, huplose⟩ := hagent g hg
      obtain ⟨hentry, hothers⟩ := lost_takeLedger f uid reply.uplose
      rw [huid, huplose]
      constructor
      · intro v l hv hm hne
        rw [hothers v fun hvu => hne (congrArg some hvu.symm)]
        exact h.answers uid reply hret (List.mem_of_getElem? hh) v l hv hm hne
      · rintro _ ⟨⟩
        exact hentry
  | _ => cases hh

/-- A copy that is held was held before, or comes with the answer that is taken; a report
that it has not missed was not missed before, and is not being taken over. -/
theorem noteCopy_spec {s : State} {e : Event} (c : Copies) {a : Address}
    (hasked : handedTo s e ≠ some a) :
    ((noteCopy s e c a).held = true →
      (∃ uid reply, handlerOf s e = some ⟨a, .answered uid reply⟩) ∨
        (c a).held = true ∧ exchanged s e ≠ some a) ∧
      ∀ v, v ∉ (noteCopy s e c a).missed → v ∉ (c a).missed ∧
        ∀ x uplose w, handlerOf s e = some ⟨x, .reporting uplose (some w)⟩ → w.1 ≠ v := by
  cases e with
  | connect b sessionid ptype client =>
    by_cases hab : a = b
    · subst hab
      simp [noteCopy, handlerOf]
    · exact ⟨fun h => .inr ⟨by simpa [noteCopy, hab] using h, by simpa [exchanged] using Ne.symm hab⟩,
        fun v h => ⟨by simpa [noteCopy, hab] using h, by rintro _ _ _ ⟨⟩⟩⟩
  | advance i env =>
    unfold noteCopy exchanged
    cases hh : handlerOf s (.advance i env) with
    | none => exact ⟨fun h => .inr ⟨h, by rintro ⟨⟩⟩, fun v h => ⟨h, by rintro _ _ _ ⟨⟩⟩⟩
    | some x =>
      obtain ⟨b, phase⟩ := x
      cases phase with
      | asking uid sessionid ptype =>
        have hsame : copyBy s (.advance i env) c ⟨b, .asking uid sessionid ptype⟩ a = c a := by
          show (if _ then Function.update c b _ else c : Copies) a = c a
          split_ifs with h
          · exact Function.update_of_ne (fun hab : a = b => hasked (hab ▸ h.1)) _ _
          · rfl
        simp [hsame, Suspended.exchanges]
      | answered uid reply =>
        by_cases hab : a = b
        · subst hab
          simp [copyBy]
        · simp [copyBy, hab, Ne.symm hab, Suspended.exchanges]
      | newDay =>
        by_cases hab : a = b
        · subst hab
          simp [copyBy]
        · simp [copyBy, hab, Ne.symm hab, Suspended.exchanges]
      | reporting uplose who =>
        cases who with
        | none => simp [copyBy, Suspended.exchanges]
        | some w =>
          refine ⟨fun h => .inr ⟨h, by rintro ⟨⟩⟩, fun v h => ?_⟩
          obtain ⟨hne, hm⟩ := not_or.mp (mt List.mem_cons.mpr h)
          refine ⟨hm, ?_⟩
          rintro _ _ _ ⟨⟩ rfl
          exact hne rfl
      | _ => simp [copyBy, Suspended.exchanges]
  | _ => exact ⟨fun h => .inr ⟨h, by rintro ⟨⟩⟩, fun v h => ⟨h, by rintro _ _ _ ⟨⟩⟩⟩

/-- The center hands an agent its ledger, with all that was reported. -/
theorem holds_asked {p q : (State × Reports) × Copies} {e : Event} {a : Address}
    (hkept : Kept p.1) (h : Holds p a) (hstep : copies.step p e q)
    (hasked : handedTo p.1.1 e = some a) : Holds q a := by
  obtain ⟨⟨hexec, hreports⟩, hcopies⟩ := hstep
  cases e with
  | advance i env =>
    cases hh : handlerOf p.1.1 (.advance i env) with
    | none => simp [handedTo, hh] at hasked
    | some x =>
      obtain ⟨b, phase⟩ := x
      cases phase with
      | asking uid sessionid ptype =>
        have hsome := hasked
        simp only [handedTo, hh, Option.ite_none_right_eq_some, Option.some.injEq] at hsome
        obtain ⟨hzero, rfl⟩ := hsome
        rcases eventLogin_cases p.1.1.center env.now b uid sessionid ptype with
          ⟨ret, hret, hcase⟩ | ⟨_, _, hcase⟩ | ⟨_, _, hcase⟩
        · simp [hcase, LoginReply.code, hret] at hzero
        · simp [hcase] at hzero
        have hreported : q.1.2.reported = p.1.2.reported.erase uid := by
          rw [hreports, noteReports, hh]
          simp [reportsBy, hcase]
        have hafter : q.1.1 = (State.suspend { p.1.1 with
            center := (eventLogin p.1.1.center env.now b uid sessionid ptype).1,
            handlers := p.1.1.handlers.eraseIdx i } b (.answered uid
              ⟨0, some sessionid, some b, some ptype, p.1.1.center.uplose⟩)) := by
          rw [exec_advance hexec hh]
          simp [advance, hcase, State.withCenter]
        have hcopy : q.2 b = if p.1.1.handlers.any (Suspended.answers b) then p.2 b
            else ⟨[], false⟩ := by
          rw [hcopies]
          simp only [noteCopy, hh, Option.elim_some, copyBy, hasked, true_and]
          split_ifs <;> simp
        have hfewer : ∀ {missed : List Uid} v l, q.1.2.reported.get? v = some l →
            v ∉ missed → p.1.2.reported.get? v = some l ∧ v ∉ missed := by
          intro missed v l hv hm
          rw [hreported, Table.get?_erase] at hv
          split_ifs at hv
          exact ⟨hv, hm⟩
        constructor
        · intro uid' reply hret hm
          rw [hafter] at hm
          rcases List.mem_append.mp hm with hold | hnew
          · have hold := List.mem_of_mem_eraseIdx hold
            rw [hcopy, if_pos (List.any_eq_true.mpr ⟨_, hold, decide_eq_true rfl⟩)]
            exact (h.answers uid' reply hret hold).fewer hfewer
          · obtain ⟨rfl, rfl⟩ := Phase.answered.inj (Suspended.mk.inj (List.mem_singleton.mp hnew)).2
            exact fun v l hv hm _ => hkept v l (hfewer v l hv hm).1
        all_goals
          intro hheld
          rw [hcopy] at hheld ⊢
          split_ifs at hheld ⊢ with hway
        · intro uplose who hm
          rw [hafter] at hm
          rcases List.mem_append.mp hm with hold | hnew
          · obtain ⟨hc, hentry⟩ := h.reports hheld uplose who (List.mem_of_mem_eraseIdx hold)
            exact ⟨hc.fewer hfewer, hentry⟩
          · cases List.mem_singleton.mp hnew
        · intro g hg
          rw [hafter] at hg
          obtain ⟨hc, hentry⟩ := h.agents hheld g hg
          exact ⟨hc.fewer hfewer, hentry⟩
      | _ => simp [handedTo, hh] at hasked
  | _ => cases hasked

/-- A step keeps the copies of every agent in order. -/
theorem holds_step {p q : (State × Reports) × Copies} {e : Event} (hkept : Kept p.1)
    (hholds : ∀ a, Holds p a) (hstep : copies.step p e q) (a : Address) : Holds q a := by
  have hbooks := ledger_books hstep.1
  have hcopies : q.2 = noteCopy p.1.1 e p.2 := hstep.2
  by_cases hasked : handedTo p.1.1 e = some a
  · exact holds_asked hkept (hholds a) hstep hasked
  by_cases hanswered : ∃ uid reply, handlerOf p.1.1 e = some ⟨a, .answered uid reply⟩ ∧
      (q.2 a).held = true
  · obtain ⟨uid, reply, hh, hq⟩ := hanswered
    exact (hholds a).answered hh hstep hq
  have hheld : (q.2 a).held = true → (p.2 a).held = true ∧ exchanged p.1.1 e ≠ some a := by
    intro hq
    rcases (noteCopy_spec p.2 hasked).1 (hcopies ▸ hq) with ⟨uid, reply, hh⟩ | hold
    · exact absurd ⟨uid, reply, hh, hq⟩ hanswered
    · exact hold
  refine (hholds a).passes (exec_passes hstep.1.1 hasked fun hq => (hheld hq).2)
    (fun hq => (hheld hq).1) fun v l hv hm => ?_
  obtain ⟨hm, hother⟩ := (noteCopy_spec p.2 hasked).2 v (hcopies ▸ hm)
  refine ⟨?_, hm⟩
  cases hbooks with
  | same _ _ hreports => rwa [hreports] at hv
  | newDay _ hreports =>
    rw [hreports] at hv
    cases hv
  | handed uid _ _ hreports =>
    rw [hreports, Table.get?_erase] at hv
    split_ifs at hv
    exact hv
  | taken x uplose who hh _ _ hreported =>
    rw [hreported] at hv
    rwa [if_neg] at hv
    intro hown
    obtain ⟨r, hr, rfl⟩ := Option.map_eq_some_iff.mp hown
    obtain ⟨w, rfl, hw⟩ := Option.bind_eq_some_iff.mp hr
    obtain ⟨_, _, rfl⟩ := Option.map_eq_some_iff.mp hw
    exact hother x uplose w hh rfl

/-- **Losses.** In a run in which every report is taken over in its turn, what was reported
on a day stands in the center's ledger until the player's next login, and every login is
handed it: each copy that is used carries what its agent was not too early for. -/
theorem survives_of_inTurn {p : (State × Reports) × Copies}
    (hp : (copies.restrict InTurn).Reachable p) : Kept p.1 ∧ Survives p.1 := by
  have hall : (Kept p.1 ∧ Survives p.1) ∧ ∀ a, Holds p a := by
    induction hp with
    | @init p hinit =>
      obtain ⟨⟨⟨blocked, hs⟩, hreports⟩, hcopies⟩ := hinit
      refine ⟨⟨fun v l hv => ?_, fun x hx => ?_⟩, fun a => ⟨?_, ?_, ?_⟩⟩
      · rw [hreports] at hv
        cases hv
      · rw [hreports] at hx
        cases hx
      · intro uid reply _ hm
        rw [hs] at hm
        cases hm
      · intro hheld
        rw [hcopies] at hheld
        cases hheld
      · intro hheld
        rw [hcopies] at hheld
        cases hheld
    | step _ hstep ih =>
      obtain ⟨⟨hkept, hsurvives⟩, hholds⟩ := ih
      have hbooks := ledger_books hstep.2.1
      exact ⟨⟨hbooks.kept hkept (hstep.1.carries hholds), hbooks.survives hkept hsurvives⟩,
        holds_step hkept hholds hstep.2⟩
  exact hall.1

/-! ## A report that is overwritten -/

/-- Agent `a` logs player `uid` in. -/
def playerLogin (a : Address) (uid : Uid) : List Event :=
  [.connect a a .S (100 + a), .login a uid true] ++ goingOn [0, 0, 0]

/-- Agent `a` reports, locks and logs out. -/
def playerLogout (a : Address) : List Event := .exit a :: goingOn [0, 0, 0, 0]

/-- The player of agent `a` loses 100 in room 1. -/
def losing (a : Address) : List Event := [.setRoom a (some 1), .addLose a (-100), .setRoom a none]

/-- Player 7 loses and logs out while player 8 is there, and logs in again after
player 8 has logged out. -/
def overlapping : List Event :=
  playerLogin 1 7 ++ playerLogin 2 8 ++ losing 1 ++ playerLogout 1 ++ playerLogout 2 ++
    playerLogin 3 7

instance (p : (State × Reports) × Copies) (e : Event) : Decidable (InTurn p e) := by
  unfold InTurn
  infer_instance

/-- Players 7 and 8 play one after the other: player 7 is handed what it has reported. -/
theorem survives_of_inTurn_two : ∃ p l, (copies.restrict InTurn).Reachable p ∧ p.1.2.logins.map Returned.uid = [7, 8, 7] ∧
    p.1.2.logins.head? = some ⟨7, some l, some l⟩ ∧ Kept p.1 ∧ Survives p.1 := by
  obtain ⟨p, hp, hlogin⟩ := TSys.reachable_of_exec
    (TSys.restrictExec_step (C := InTurn) (T := copies)
      (TSys.observeExec_step (TSys.observeExec_step exec_step)))
    (s := ((State.started Table.empty, ⟨Table.empty, []⟩), fun _ => ⟨[], false⟩))
    (l := playerLogin 1 7 ++ losing 1 ++ playerLogout 1 ++ playerLogin 2 8 ++ losing 2 ++
      playerLogout 2 ++ playerLogin 3 7)
    (p := fun p => decide (p.1.2.logins.map Returned.uid = [7, 8, 7] ∧ p.1.2.logins.head? =
      some ⟨7, some ⟨[(1, -100)], by decide⟩, some ⟨[(1, -100)], by decide⟩⟩))
    ⟨⟨⟨Table.empty, rfl⟩, rfl⟩, rfl⟩ (by decide +kernel)
  obtain ⟨huids, hhead⟩ := of_decide_eq_true hlogin
  exact ⟨p, _, hp, huids, hhead, survives_of_inTurn hp⟩

theorem report_overwritten : ∃ p, ledger.Reachable p ∧ ¬ Survives p := by
  obtain ⟨p, hp, hlost⟩ := TSys.reachable_of_exec
    (T := ledger) (TSys.observeExec_step exec_step)
    (s := (State.started Table.empty, ⟨Table.empty, []⟩)) (l := overlapping)
    (p := fun p => p.2.logins.any fun x => x.reported.isSome && x.handed == none)
    ⟨⟨Table.empty, rfl⟩, rfl⟩ (by decide +kernel)
  obtain ⟨x, hx, hboth⟩ := List.any_eq_true.mp hlost
  rw [Bool.and_eq_true, beq_iff_eq] at hboth
  obtain ⟨l, hl⟩ := Option.isSome_iff_exists.mp hboth.1
  refine ⟨p, hp, fun hsurvives => ?_⟩
  have := hsurvives x hx l hl
  rw [hboth.2] at this
  cases this

end PlayerCenter

end DnServer.Bullfight
