import DnServer.Bullfight.Center.System

/-!
# One session for each player

`noteTold` keeps which agents were told that their login succeeded and have not logged
out since. The center removes the entry of a player whoever asks: a late logout of a
replaced agent makes room for a second session.

* `Registered.step`: an entry is written where its agent is told, and one that is
  removed is the agent's own.
* `single_iff_ownLogout`: a login is refused, or waits, while its player has an entry,
  so an agent that was told stands in the entry until its own logout.
* `second_session`: the logout of a replaced agent is served after the new login.
-/

namespace DnServer.Bullfight

open DnServer.Lib

namespace PlayerCenter

/-! ## Who was told of a successful login -/

/-- Agents that were told so, each with its player. -/
abbrev Told := List (Address × Uid)

/-- An agent is noted when the center answers its login with success, and struck
off when the center serves its logout. -/
def toldBy (c : Center) (env : Env) (told : Told) : Suspended → Told
  | ⟨a, .asking uid sessionid ptype⟩ =>
    if (eventLogin c env.now a uid sessionid ptype).2.any fun reply => reply.ret = 0 then
      (a, uid) :: told
    else told
  | ⟨a, .leaving uid _⟩ => told.filter fun p => p ≠ (a, uid)
  | _ => told

def noteTold (s : State) (e : Event) (_t : State) (told : Told) : Told :=
  match e with
  | .advance _ env => (handlerOf s e).elim told (toldBy s.center env told)
  | _ => told

/-- The center with its agents, and a note of who was told. -/
def sessions : TSys (State × Told) Event := system.observe (fun _ => []) noteTold

/-- No player has two agents that were told of a successful login. -/
def Single (p : State × Told) : Prop :=
  ∀ a b uid, (a, uid) ∈ p.2 → (b, uid) ∈ p.2 → a = b

/-- No login for a player with such an agent would be answered with success. -/
def Guarded (p : State × Told) : Prop :=
  ∀ a uid, (a, uid) ∈ p.2 → ∀ now b sessionid ptype reply,
    (eventLogin p.1.center now b uid sessionid ptype).2 = some reply → reply.ret ≠ 0

/-- The address in a player's entry. -/
def addressOf (c : Center) (uid : Uid) : Option Address :=
  (c.all_player.get? uid).map Player.address

/-- A logout that is served is of the agent in the player's entry, if there is one,
or the server is closing down anyway. -/
def OwnLogout (p : State × Told) (e : Event) : Prop :=
  match handlerOf p.1 e with
  | some ⟨a, .leaving uid _⟩ =>
    p.1.center.server_close = true ∨ (addressOf p.1.center uid).all (· = a) = true
  | _ => True

/-! ## Logins and addresses -/

/-- Without an entry and with the server open a login succeeds at some time. -/
theorem eventLogin_open {s : Center} {uid : Uid} (hclose : s.server_close = false)
    (hplayer : s.all_player.get? uid = none) (a : Address) (sessionid : SessionId)
    (ptype : PType) : ∃ now reply,
      (eventLogin s now a uid sessionid ptype).2 = some reply ∧ reply.ret = 0 := by
  -- a block ends sometime, so late enough it is not in the way
  refine ⟨(s.blocked_player.get? uid).getD 0,
    ⟨0, some sessionid, some a, some ptype, s.uplose⟩, ?_, rfl⟩
  unfold eventLogin
  rw [if_neg (by simp [hclose]), if_neg, hplayer]
  cases s.blocked_player.get? uid <;> simp

theorem addressOf_modify {c c' : Center} {uid : Uid} {f : Player → Player}
    (h : c'.all_player = c.all_player.modify uid f) (hf : ∀ p, (f p).address = p.address)
    (v : Uid) : addressOf c' v = addressOf c v := by
  unfold addressOf
  rw [h, Table.get?_modify]
  by_cases hv : v = uid
  · rw [if_pos hv, Option.map_map]
    exact congrArg (fun g => Option.map g _) (funext hf)
  · rw [if_neg hv]

theorem toldBy_quiet (c : Center) (env : Env) (told : Told) {h : Suspended}
    (hphase : h.phase.atCenter = false) : toldBy c env told h = told := by
  obtain ⟨a, phase⟩ := h
  cases phase <;> first | rfl | cases hphase

/-! ## What a step does to the entries -/

/-- A step leaves the entries' agents alone, or logs an agent in where there was no
entry, or removes an entry. -/
inductive Moves (p : State × Told) (e : Event) (q : State × Told) : Prop
  | same : (∀ v, addressOf q.1.center v = addressOf p.1.center v) →
      (q.1.center.server_close = false → p.1.center.server_close = false) → q.2 = p.2 →
      Moves p e q
  | loggedIn (a : Address) (uid : Uid) : p.1.center.server_close = false →
      addressOf p.1.center uid = none →
      (∀ v, addressOf q.1.center v = if v = uid then some a else addressOf p.1.center v) →
      q.2 = (a, uid) :: p.2 → Moves p e q
  | loggedOut (a : Address) (uid : Uid) (sessionid : SessionId) :
      handlerOf p.1 e = some ⟨a, .leaving uid sessionid⟩ →
      (∀ v, addressOf q.1.center v = if v = uid then none else addressOf p.1.center v) →
      q.1.center.server_close = p.1.center.server_close →
      q.2 = p.2.filter (fun x => x ≠ (a, uid)) → Moves p e q

theorem sessions_moves {p q : State × Told} {e : Event} (h : sessions.step p e q) :
    Moves p e q := by
  obtain ⟨hexec, hnote⟩ := h
  have hserves := exec_serves hexec
  unfold noteTold at hnote
  generalize hh : handlerOf p.1 e = x at hserves hnote
  generalize hc : q.1.center = c at hserves
  cases hserves with
  | other hsame hquiet =>
    refine .same (fun v => by rw [hc, hsame]) (fun hq => by rwa [hc, hsame] at hq) ?_
    -- no handler the note is about
    cases e with
    | advance i env =>
      have hnote : q.2 = x.elim p.2 (toldBy p.1.center env p.2) := hnote
      cases x with
      | none => exact hnote
      | some x => exact hnote.trans (toldBy_quiet _ _ _ (hquiet x rfl))
    | _ => exact hnote
  | newDay hday => exact .same (fun v => by rw [hc, hday]; rfl) (fun hq => by rwa [hc, hday] at hq) hnote
  | blockPlayer hblock =>
    exact .same (fun v => by rw [hc, hblock]; rfl) (fun hq => by rwa [hc, hblock] at hq) hnote
  | serverClose hclose =>
    refine .same (fun v => by rw [hc, hclose]; rfl) (fun hq => ?_) hnote
    rw [hc, hclose] at hq
    cases hq
  | @login i env a uid sessionid ptype hlogin =>
    have hnote : q.2 = if ((eventLogin p.1.center env.now a uid sessionid ptype).2.any
        fun reply => decide (reply.ret = 0)) = true then (a, uid) :: p.2 else p.2 := hnote
    rcases eventLogin_cases p.1.center env.now a uid sessionid ptype with
      ⟨ret, hret, hcase⟩ | ⟨player, _, hcase⟩ | ⟨hopen, hnone, hcase⟩
    · rw [hcase] at hlogin hnote
      refine .same (fun v => by rw [hc, hlogin]) (fun hq => by rwa [hc, hlogin] at hq) ?_
      exact hnote.trans (if_neg (by simpa [LoginReply.code] using hret))
    · rw [hcase] at hlogin hnote
      refine .same (fun v => ?_) (fun hq => by rwa [hc, hlogin] at hq) hnote
      rw [hc, hlogin]
      exact addressOf_modify (f := fun p => { p with lock := true }) rfl (fun _ => rfl) v
    · rw [hcase] at hlogin hnote
      refine .loggedIn a uid hopen (congrArg _ hnone) (fun v => ?_) hnote
      rw [hc, hlogin]
      unfold addressOf
      rw [Table.get?_set]
      by_cases hv : v = uid
      · rw [if_pos hv, if_pos hv]
        rfl
      · rw [if_neg hv, if_neg hv]
  | redirected hredirected =>
    obtain ⟨player, _, hcenter⟩ := Option.map_eq_some_iff.mp hredirected
    obtain ⟨hcenter, _⟩ := Prod.mk.inj hcenter
    refine .same (fun v => ?_) (fun hq => by rwa [hc, ← hcenter] at hq) hnote
    rw [hc, ← hcenter]
    exact addressOf_modify (f := fun p => { p with sessionid := _, ptype := _, lock := false }) rfl
      (fun _ => rfl) v
  | raised hsame =>
    exact .same (fun v => by rw [hc, hsame]) (fun hq => by rwa [hc, hsame] at hq) hnote
  | @lock i env a uid sessionid hlock =>
    unfold eventLock at hlock
    cases hplayer : p.1.center.all_player.get? uid with
    | none =>
      rw [hplayer] at hlock
      exact .same (fun v => by rw [hc, hlock]) (fun hq => by rwa [hc, hlock] at hq) hnote
    | some player =>
      rw [hplayer] at hlock
      by_cases hbusy : player.lock = true ∨ player.sessionid ≠ sessionid
      · have hlock := hlock.trans (congrArg Prod.fst (if_pos hbusy))
        exact .same (fun v => by rw [hc, hlock]) (fun hq => by rwa [hc, hlock] at hq) hnote
      · have hlock := hlock.trans (congrArg Prod.fst (if_neg hbusy))
        refine .same (fun v => ?_) (fun hq => by rwa [hc, hlock] at hq) hnote
        rw [hc, hlock]
        exact addressOf_modify (f := fun p => { p with lock := true }) rfl (fun _ => rfl) v
  | unlock hunlock =>
    refine .same (fun v => ?_) (fun hq => by rwa [hc, hunlock] at hq) hnote
    rw [hc, hunlock]
    exact addressOf_modify (f := fun p => { p with lock := false }) rfl (fun _ => rfl) v
  | @loginOut i env a uid sessionid hout =>
    refine .loggedOut a uid sessionid hh (fun v => ?_) (by rw [hc, hout]; rfl) hnote
    rw [hc, hout]
    unfold addressOf eventLoginOut
    rw [Table.get?_erase]
    by_cases hv : v = uid
    · rw [if_pos hv, if_pos hv]
      rfl
    · rw [if_neg hv, if_neg hv]
  | updateUplose hup =>
    exact .same (fun v => by rw [hc, hup]; rfl) (fun hq => by rwa [hc, hup] at hq) hnote

/-! ## Entries and agents -/

/-- The entries are agents that were told; until the server closes down, every
agent that was told is the one in its player's entry. -/
structure Registered (p : State × Told) : Prop where
  told : ∀ a uid, addressOf p.1.center uid = some a → (a, uid) ∈ p.2
  entry : p.1.center.server_close = false → ∀ a uid, (a, uid) ∈ p.2 →
    addressOf p.1.center uid = some a
  single : Single p

theorem Registered.guarded {p : State × Told} (h : Registered p) : Guarded p := by
  intro a uid ha now b sessionid ptype reply hreply
  rcases eventLogin_cases p.1.center now b uid sessionid ptype with
    ⟨ret, hret, hcase⟩ | ⟨_, _, hcase⟩ | ⟨hopen, hnone, _⟩
  · rw [hcase] at hreply
    obtain rfl := Option.some.inj hreply
    exact hret
  · rw [hcase] at hreply
    cases hreply
  · have hentry := h.entry hopen a uid ha
    unfold addressOf at hentry
    rw [hnone] at hentry
    cases hentry

/-- One step keeps it, if a logout that is served is the agent's own. -/
theorem Registered.step {p q : State × Told} {e : Event} (h : Registered p)
    (hown : OwnLogout p e) (hstep : sessions.step p e q) : Registered q := by
  cases sessions_moves hstep with
  | same haddress hclose htold =>
    constructor
    · intro a uid ha
      rw [haddress] at ha
      rw [htold]
      exact h.told a uid ha
    · intro hq a uid ha
      rw [htold] at ha
      rw [haddress]
      exact h.entry (hclose hq) a uid ha
    · intro a b uid ha hb
      rw [htold] at ha hb
      exact h.single a b uid ha hb
  | loggedIn a uid hopen hnone haddress htold =>
    -- nobody has been told for this player, for there is no entry
    have hfree : ∀ b, (b, uid) ∉ p.2 := by
      intro b hb
      have := h.entry hopen b uid hb
      rw [hnone] at this
      cases this
    have hmem : ∀ b v, (b, v) ∈ q.2 ↔ (b, v) = (a, uid) ∨ (b, v) ∈ p.2 := by
      intro b v
      rw [htold]
      exact List.mem_cons
    constructor
    · intro b v hb
      rw [haddress] at hb
      rw [hmem]
      by_cases hv : v = uid
      · rw [if_pos hv] at hb
        left
        rw [hv, Option.some.inj hb]
      · rw [if_neg hv] at hb
        exact .inr (h.told b v hb)
    · intro _ b v hb
      rw [haddress]
      rcases (hmem b v).mp hb with heq | hold
      · obtain ⟨rfl, rfl⟩ := Prod.mk.inj heq
        exact if_pos rfl
      · rw [if_neg (fun hv : v = uid => hfree b (hv ▸ hold))]
        exact h.entry hopen b v hold
    · intro b b' v hb hb'
      rcases (hmem b v).mp hb with heq | hold
      · obtain ⟨rfl, rfl⟩ := Prod.mk.inj heq
        rcases (hmem b' v).mp hb' with heq' | hold'
        · exact (Prod.mk.inj heq').1.symm
        · exact absurd hold' (hfree b')
      · rcases (hmem b' v).mp hb' with heq' | hold'
        · obtain ⟨rfl, rfl⟩ := Prod.mk.inj heq'
          exact absurd hold (hfree b)
        · exact h.single b b' v hold hold'
  | loggedOut a uid sessionid hhandler haddress hclose htold =>
    have hmem : ∀ b v, (b, v) ∈ q.2 ↔ (b, v) ∈ p.2 ∧ (b, v) ≠ (a, uid) := by
      intro b v
      rw [htold, List.mem_filter]
      exact and_congr_right fun _ => decide_eq_true_iff
    unfold OwnLogout at hown
    rw [hhandler] at hown
    constructor
    · intro b v hb
      rw [haddress] at hb
      by_cases hv : v = uid
      · rw [if_pos hv] at hb
        cases hb
      · rw [if_neg hv] at hb
        refine (hmem b v).mpr ⟨h.told b v hb, fun heq => hv (Prod.mk.inj heq).2⟩
    · intro hq b v hb
      obtain ⟨hold, hne⟩ := (hmem b v).mp hb
      have hopen := hclose.symm.trans hq
      have hentry := h.entry hopen b v hold
      rw [haddress]
      by_cases hv : v = uid
      · -- the logout is of the agent in the entry, and that one is struck off
        subst hv
        rcases hown with hclosed | hall
        · rw [hopen] at hclosed
          cases hclosed
        · rw [hentry] at hall
          have hba : b = a := by simpa using hall
          exact absurd (by rw [hba]) hne
      · rw [if_neg hv]
        exact hentry
    · intro b b' v hb hb'
      exact h.single b b' v ((hmem b v).mp hb).1 ((hmem b' v).mp hb').1

theorem registered {p : State × Told} (hp : (sessions.restrict OwnLogout).Reachable p) :
    Registered p := by
  induction hp with
  | @init p hinit =>
    obtain ⟨⟨blocked, hs⟩, htold⟩ := hinit
    have hnone : ∀ v, addressOf p.1.center v = none := by
      intro v
      rw [hs]
      rfl
    constructor
    · intro a uid ha
      rw [hnone] at ha
      cases ha
    · intro _ a uid ha
      rw [htold] at ha
      cases ha
    · intro a b uid ha
      rw [htold] at ha
      cases ha
  | step _ hstep ih => exact ih.step hstep.1 hstep.2

/-- A logout that is served removes the player's entry, whoever asks. -/
theorem loginOut_served {p q : State × Told} {e : Event} {a : Address} {uid : Uid}
    {sessionid : SessionId} (hh : handlerOf p.1 e = some ⟨a, .leaving uid sessionid⟩)
    (hstep : sessions.step p e q) :
    q.1.center = eventLoginOut p.1.center uid sessionid ∧
      q.2 = p.2.filter fun x => x ≠ (a, uid) := by
  have hserves := exec_serves hstep.1
  have hnote := hstep.2
  cases e with
  | advance i env =>
    unfold noteTold at hnote
    rw [hh] at hserves hnote
    generalize q.1.center = c at hserves
    cases hserves with
    | other _ hquiet => cases hquiet _ rfl
    | loginOut hout => exact ⟨hout, hnote⟩
  | _ => cases hh

/-- In a run in which every logout is served for the agent in the player's entry,
no player has two sessions; and any other logout opens the way to a second one. -/
theorem single_iff_ownLogout {p : State × Told}
    (hp : (sessions.restrict OwnLogout).Reachable p) :
    Single p ∧ ∀ e q, sessions.step p e q → (Guarded q ↔ OwnLogout p e) := by
  have hreg := registered hp
  refine ⟨hreg.single, fun e q hstep => ⟨fun hguarded => ?_, fun hown =>
    (hreg.step hown hstep).guarded⟩⟩
  unfold OwnLogout
  split
  · rename_i a uid sessionid hh
    obtain ⟨hcenter, htold⟩ := loginOut_served hh hstep
    by_contra hnot
    obtain ⟨hopen, hother⟩ := not_or.mp hnot
    cases haddress : addressOf p.1.center uid with
    | none => exact hother (by rw [haddress]; rfl)
    | some b =>
      have hba : b ≠ a := by
        rintro rfl
        exact hother (by rw [haddress]; simp)
      -- the agent that keeps its session loses its entry
      have hb : (b, uid) ∈ q.2 := by
        rw [htold, List.mem_filter]
        exact ⟨hreg.told b uid haddress, decide_eq_true fun heq => hba (Prod.mk.inj heq).1⟩
      have hclose : q.1.center.server_close = false := by
        rw [hcenter]
        exact Bool.eq_false_iff.mpr hopen
      have hnone : q.1.center.all_player.get? uid = none := by
        rw [hcenter]
        exact Table.get?_erase_self _ _
      obtain ⟨now, reply, hreply, hret⟩ := eventLogin_open hclose hnone 0 0 .S
      exact hguarded b uid hb now 0 0 .S reply hreply hret
  · trivial

/-! ## A late logout -/

/-- Agent `a` comes into being and sends the login of player 7. -/
def loggingIn (a : Address) : List Event := [.connect a a .S (100 + a), .login a 7 true]

/-- The suspended handlers go on, as numbered. -/
def goingOn (l : List ℕ) : List Event := l.map fun i => .advance i .usual

/-- Agent 1 logs player 7 in. -/
def firstLogin : List Event := loggingIn 1 ++ goingOn [0, 0, 0]

/-- Agent 2 finds the player online, and agent 1 plays on over its connection and
logs out. Agent 2, told to end, has its lock granted, as there is no entry any more.
Agent 3 logs the player in before the logout of agent 2 is served. -/
def replaced : List Event :=
  firstLogin ++ loggingIn 2 ++ goingOn [0, 0, 0, 0] ++
    .exit 1 :: goingOn [1, 1, 1, 1, 0, 0, 0] ++ loggingIn 3 ++ goingOn [1, 1, 1]

/-- Agent 4 logs the player in after it. -/
def lateLogout : List Event := replaced ++ goingOn [0] ++ loggingIn 4 ++ goingOn [0, 0, 0]

instance (p : State × Told) (e : Event) : Decidable (OwnLogout p e) := by
  unfold OwnLogout
  cases handlerOf p.1 e with
  | none => exact .isTrue trivial
  | some h =>
    obtain ⟨a, phase⟩ := h
    cases phase <;> infer_instance

/-- Agent 1 has logged out for agent 2's login, agent 3 has logged the player in: it is the only
one. The logout of agent 2, still on its way, would open the way to a second session. -/
theorem single_iff_ownLogout_relogin : ∃ p, (sessions.restrict OwnLogout).Reachable p ∧
    (1, 7) ∉ p.2 ∧ (3, 7) ∈ p.2 ∧ Single p ∧
      ∃ q, sessions.step p (.advance 0 .usual) q ∧ ¬ Guarded q := by
  obtain ⟨p, hp, hend⟩ := TSys.reachable_of_exec
    (TSys.restrictExec_step (C := OwnLogout) (T := sessions) (TSys.observeExec_step exec_step))
    (s := (State.started Table.empty, [])) (l := replaced)
    (p := fun p => decide ((1, 7) ∉ p.2 ∧ (3, 7) ∈ p.2 ∧ ¬ OwnLogout p (.advance 0 .usual) ∧
      (TSys.observeExec exec noteTold p (.advance 0 .usual)).isSome = true))
    ⟨⟨Table.empty, rfl⟩, rfl⟩ (by decide)
  obtain ⟨hout, htold, hlate, hgoes⟩ := of_decide_eq_true hend
  obtain ⟨q, hq⟩ := Option.isSome_iff_exists.mp hgoes
  have hstep : sessions.step p (.advance 0 .usual) q := TSys.observeExec_step exec_step p _ q hq
  obtain ⟨hsingle, hnext⟩ := single_iff_ownLogout hp
  exact ⟨p, hp, hout, htold, hsingle, q, hstep, fun h => hlate ((hnext _ q hstep).mp h)⟩

/-- Agents 3 and 4 are both told that player 7 is logged in, and neither has logged
out. -/
theorem second_session : ∃ p, sessions.Reachable p ∧ ¬ Single p := by
  obtain ⟨p, hp, htold⟩ := TSys.reachable_of_exec
    (T := sessions) (TSys.observeExec_step exec_step)
    (s := (State.started Table.empty, [])) (l := lateLogout)
    (p := fun p => decide ((3, 7) ∈ p.2 ∧ (4, 7) ∈ p.2)) ⟨⟨Table.empty, rfl⟩, rfl⟩ (by decide)
  obtain ⟨h3, h4⟩ := of_decide_eq_true htold
  refine ⟨p, hp, fun hsingle => ?_⟩
  cases hsingle 3 4 7 h3 h4

end PlayerCenter

end DnServer.Bullfight
