import DnServer.Lib.Transition
import DnServer.Bullfight.Center.Step

/-!
# The player center and its agents as a transition system

Agents come into being, log in, play and exit; which suspended handler goes on
next is open. Where the code serves the messages of one agent in order and holds
an agent still during a blocking call, the steps here allow more.
-/

namespace DnServer.Bullfight

open DnServer.Lib

namespace PlayerCenter

inductive Event
  /-- The watchdog creates an agent for a session. -/
  | connect (a : Address) (sessionid : SessionId) (ptype : PType) (client : Address)
  /-- `CMSG_LOGIN`, with the result of the key check. -/
  | login (a : Address) (uid : Uid) (key : Bool)
  /-- The connection closes, the player logs out, or a handler calls `Exit`. -/
  | exit (a : Address)
  /-- A handler opens the ledger's entry for a room. -/
  | openEntry (a : Address) (roomid : RoomId)
  /-- A game result or a ticket. -/
  | addLose (a : Address) (money : ℚ)
  /-- The agent is in a room or no longer in one. -/
  | setRoom (a : Address) (roomid : Option RoomId)
  /-- Another handler takes or releases the agent's lock. -/
  | setLock (a : Address) (lock : Bool)
  /-- The suspended handler number `i` goes on. -/
  | advance (i : ℕ) (env : Env)
  | newDay
  | blockPlayer (uid : Uid) (endtime : ℕ)
  | serverClose

/-- `CMSG_LOGIN` at an agent that has had none. -/
def startLogin (s : State) (a : Address) (uid : Uid) (key : Bool) : State :=
  match live s a with
  | none => s
  | some g =>
    if g.fresh then
      let s := s.setAgent a fun g => { g with fresh := false }
      if serverconf.TEST_MODEL ∨ key then s.suspend a (.asking uid g.sessionid g.ptype)
      else exit s a
    else s

/-- The center's first round of a day, with the messages it sends. -/
def startDay (s : State) : State :=
  { s with
    center := aNewDay s.center
    handlers := s.handlers ++ (toldNewDay s.center).map fun a => ⟨a, .newDay⟩ }

/-- An agent's handler that changes its own fields only. -/
def onAgent (s : State) (a : Address) (f : Agent → Agent) : State :=
  match live s a with
  | none => s
  | some _ => s.setAgent a f

/-- One step; `none` where it cannot be taken. -/
def exec (s : State) (e : Event) : Option State :=
  if s.center.aborted then none
  else
    match e with
    | .connect a sessionid ptype client =>
      if a ∈ s.agents then none
      else some { s with agents := s.agents.set a (.created sessionid ptype client) }
    | .login a uid key => some (startLogin s a uid key)
    | .exit a => some (exit s a)
    | .openEntry a roomid => some (onAgent s a fun g => g.openEntry roomid)
    | .addLose a money => some (onAgent s a fun g => g.addLose money)
    | .setRoom a roomid => some (onAgent s a fun g => { g with roomid := roomid })
    | .setLock a lock => some (onAgent s a fun g => { g with lock := lock })
    | .advance i env =>
      (s.handlers[i]?).map fun h =>
        advance env { s with handlers := s.handlers.eraseIdx i } h.address h.phase
    | .newDay => some (startDay s)
    | .blockPlayer uid endtime => some (s.withCenter (adminBlockedPlayer s.center uid endtime))
    | .serverClose => some (s.withCenter (adminServerClose s.center))

/-- The service as it starts, with the players blocked from before. -/
def State.started (blocked_player : Table Uid ℕ) : State where
  center := ⟨Table.empty, blocked_player, false, some Table.empty, false⟩
  agents := Table.empty
  handlers := []

def system : TSys State Event where
  init s := ∃ blocked_player, s = .started blocked_player
  step s e t := exec s e = some t

theorem exec_step (s : State) (e : Event) (t : State) (h : exec s e = some t) :
    system.step s e t := h

/-- The watchdogs exchange the clients, the game lets nobody go, the data is found. -/
def Env.usual : Env := ⟨0, 100, 101, none, true⟩

/-! ## What a step does to the center -/

/-- `EVENT_LOGIN` refuses, or calls the watchdogs for a player who has an entry,
or makes an entry. -/
theorem eventLogin_cases (s : Center) (now : ℕ) (a : Address) (uid : Uid)
    (sessionid : SessionId) (ptype : PType) :
    (∃ ret, ret ≠ 0 ∧ eventLogin s now a uid sessionid ptype = (s, some (.code ret))) ∨
      (∃ player, s.all_player.get? uid = some player ∧
        eventLogin s now a uid sessionid ptype =
          ({ s with all_player := s.all_player.modify uid fun p => { p with lock := true } },
            none)) ∨
      (s.server_close = false ∧ s.all_player.get? uid = none ∧
        eventLogin s now a uid sessionid ptype =
          ({ s with all_player := s.all_player.set uid ⟨a, sessionid, ptype, false⟩ },
            some ⟨0, some sessionid, some a, some ptype, s.uplose⟩)) := by
  unfold eventLogin
  by_cases hclose : s.server_close = true
  · rw [if_pos hclose]
    exact .inl ⟨_, by decide, rfl⟩
  rw [if_neg hclose]
  by_cases hblocked : ((s.blocked_player.get? uid).any fun endtime => now < endtime) = true
  · rw [if_pos hblocked]
    exact .inl ⟨_, by decide, rfl⟩
  rw [if_neg hblocked]
  cases hplayer : s.all_player.get? uid with
  | none => exact .inr (.inr ⟨by simpa using hclose, rfl, rfl⟩)
  | some player =>
    by_cases hlock : player.lock = true
    · exact .inl ⟨errorcode.LOGIN_AT_OTHER, by decide, if_pos hlock⟩
    · exact .inr (.inl ⟨player, rfl, if_neg hlock⟩)

/-- The center's turn is next: it has been sent a message, or waits for the
watchdogs. -/
def Phase.atCenter : Phase → Bool
  | .asking _ _ _ => true
  | .redirecting _ _ _ => true
  | .reporting _ _ => true
  | .locking _ _ => true
  | .unlocking _ => true
  | .leaving _ _ => true
  | _ => false

/-- What a step does to the center's tables. Messages of the agents change them
only where the center serves them. -/
inductive Serves (s t : Center) : Event → Option Suspended → Prop
  | other {e h} : t = s → (∀ x, h = some x → x.phase.atCenter = false) → Serves s t e h
  | newDay : t = aNewDay s → Serves s t .newDay none
  | blockPlayer {uid endtime} : t = adminBlockedPlayer s uid endtime →
      Serves s t (.blockPlayer uid endtime) none
  | serverClose : t = adminServerClose s → Serves s t .serverClose none
  | login {i env a uid sessionid ptype} :
      t = (eventLogin s env.now a uid sessionid ptype).1 →
      Serves s t (.advance i env) (some ⟨a, .asking uid sessionid ptype⟩)
  | redirected {i env a uid sessionid ptype old reply} :
      redirected s uid sessionid ptype env.oldaddress = some (t, old, reply) →
      Serves s t (.advance i env) (some ⟨a, .redirecting uid sessionid ptype⟩)
  | raised {i env a uid sessionid ptype} : t = s →
      Serves s t (.advance i env) (some ⟨a, .redirecting uid sessionid ptype⟩)
  | lock {i env a uid sessionid} : t = (eventLock s uid sessionid).1 →
      Serves s t (.advance i env) (some ⟨a, .locking uid sessionid⟩)
  | unlock {i env a uid} : t = eventUnlock s uid →
      Serves s t (.advance i env) (some ⟨a, .unlocking uid⟩)
  | loginOut {i env a uid sessionid} : t = eventLoginOut s uid sessionid →
      Serves s t (.advance i env) (some ⟨a, .leaving uid sessionid⟩)
  | updateUplose {i env a uplose who} : t = eventUpdateUplose s uplose →
      Serves s t (.advance i env) (some ⟨a, .reporting uplose who⟩)

/-- The handler an event lets go on. -/
def handlerOf (s : State) : Event → Option Suspended
  | .advance i _ => s.handlers[i]?
  | _ => none

@[simp] theorem exitEnd_center (s : State) (a : Address) (ret : Bool) :
    (exitEnd s a ret).center = s.center := rfl

@[simp] theorem exit_center (s : State) (a : Address) : (exit s a).center = s.center := by
  unfold exit
  cases live s a with
  | none => rfl
  | some g =>
    cases hlock : g.lock with
    | true => simp [hlock]
    | false => cases huid : g.uid <;> simp [hlock, huid]

@[simp] theorem onAgent_center (s : State) (a : Address) (f : Agent → Agent) :
    (onAgent s a f).center = s.center := by
  unfold onAgent
  cases live s a <;> rfl

@[simp] theorem loginAnswered_center (s : State) (a : Address) (uid : Uid) (reply : LoginReply) :
    (loginAnswered s a uid reply).center = s.center := by
  unfold loginAnswered
  cases live s a with
  | none => rfl
  | some g =>
    show (if _ then _ else _ : State).center = _
    split_ifs
    · rfl
    · cases reply.address with
      | none => rfl
      | some address =>
        cases reply.sid with
        | none => rfl
        | some sid =>
          show (if _ then _ else _ : State).center = _
          split_ifs
          · exact exit_center _ a
          · rfl
    · exact exit_center s a

@[simp] theorem exitLocked_center (env : Env) (s : State) (a : Address) (uid : Uid)
    (succ : Bool) : (exitLocked env s a uid succ).center = s.center := by
  unfold exitLocked
  cases live s a with
  | none => rfl
  | some g =>
    cases succ with
    | false => rfl
    | true =>
      show (if _ then _ else _ : State).center = _
      split_ifs <;> rfl

@[simp] theorem startLogin_center (s : State) (a : Address) (uid : Uid) (key : Bool) :
    (startLogin s a uid key).center = s.center := by
  unfold startLogin
  cases live s a with
  | none => rfl
  | some g =>
    cases hfresh : g.fresh with
    | false => simp [hfresh]
    | true => cases key <;> simp [hfresh]

theorem advance_serves (env : Env) (s : State) (i : ℕ) (h : Suspended) :
    Serves s.center (advance env s h.address h.phase).center (.advance i env) (some h) := by
  have quiet : ∀ {t : Center}, t = s.center → h.phase.atCenter = false →
      Serves s.center t (.advance i env) (some h) := by
    intro t ht hphase
    refine .other ht ?_
    rintro _ ⟨⟩
    exact hphase
  obtain ⟨a, phase⟩ := h
  cases phase with
  | asking uid sessionid ptype =>
    refine .login ?_
    unfold advance
    cases hr : (eventLogin s.center env.now a uid sessionid ptype).2 with
    | none => simp [hr]
    | some reply => simp [hr]
  | redirecting uid sessionid ptype =>
    cases hr : redirected s.center uid sessionid ptype env.oldaddress with
    | none =>
      refine .raised ?_
      unfold advance
      simp [hr]
    | some r =>
      obtain ⟨center, old, reply⟩ := r
      have hc : (advance env s a (.redirecting uid sessionid ptype)).center = center := by
        unfold advance
        simp [hr]
      subst hc
      exact .redirected hr
  | answered uid reply => exact quiet (loginAnswered_center s a uid reply) rfl
  | loading =>
    refine quiet ?_ rfl
    unfold advance
    cases live s a with
    | none => rfl
    | some g => cases env.found <;> simp
  | relogin sid address ptype =>
    refine quiet ?_ rfl
    unfold advance
    cases live s a <;> rfl
  | reporting uplose who =>
    refine .updateUplose ?_
    unfold advance
    cases who <;> rfl
  | locking uid sessionid => exact .lock rfl
  | locked uid succ => exact quiet (exitLocked_center env s a uid succ) rfl
  | quitting uid =>
    refine quiet ?_ rfl
    unfold advance
    cases live s a <;> rfl
  | unlocking uid => exact .unlock rfl
  | unlocked =>
    refine quiet ?_ rfl
    unfold advance
    cases live s a <;> rfl
  | leaving uid sessionid =>
    refine .loginOut ?_
    unfold advance
    cases hl : live (s.withCenter (eventLoginOut s.center uid sessionid)) a <;> simp [hl]
  | newDay =>
    refine quiet ?_ rfl
    unfold advance
    cases live s a <;> rfl

/-- A step changes the center by serving one message, or not at all. -/
theorem exec_serves {s t : State} {e : Event} (h : exec s e = some t) :
    Serves s.center t.center e (handlerOf s e) := by
  unfold exec at h
  by_cases haborted : s.center.aborted = true
  · rw [if_pos haborted] at h
    cases h
  rw [if_neg haborted] at h
  cases e with
  | connect a sessionid ptype client =>
    by_cases ha : a ∈ s.agents
    · simp [ha] at h
    · simp only [if_neg ha, Option.some.injEq] at h
      exact .other (h ▸ rfl) nofun
  | login a uid key =>
    obtain rfl := Option.some.inj h
    exact .other (startLogin_center s a uid key) nofun
  | exit a =>
    obtain rfl := Option.some.inj h
    exact .other (exit_center s a) nofun
  | openEntry a roomid =>
    obtain rfl := Option.some.inj h
    exact .other (onAgent_center s a _) nofun
  | addLose a money =>
    obtain rfl := Option.some.inj h
    exact .other (onAgent_center s a _) nofun
  | setRoom a roomid =>
    obtain rfl := Option.some.inj h
    exact .other (onAgent_center s a _) nofun
  | setLock a lock =>
    obtain rfl := Option.some.inj h
    exact .other (onAgent_center s a _) nofun
  | advance i env =>
    obtain ⟨x, hx, rfl⟩ := Option.map_eq_some_iff.mp h
    show Serves _ _ _ s.handlers[i]?
    rw [hx]
    exact advance_serves env { s with handlers := s.handlers.eraseIdx i } i x
  | newDay =>
    obtain rfl := Option.some.inj h
    exact .newDay rfl
  | blockPlayer uid endtime =>
    obtain rfl := Option.some.inj h
    exact .blockPlayer rfl
  | serverClose =>
    obtain rfl := Option.some.inj h
    exact .serverClose rfl

end PlayerCenter

end DnServer.Bullfight
