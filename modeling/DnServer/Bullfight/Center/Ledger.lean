import DnServer.Bullfight.Center.Session

/-!
# Copies of the ledger

The center hands its ledger out with the answer to a login; the agent changes its own
player's entry in it and sends the whole table back on `Exit`. `Passes` says what a step can
do to the copies of one agent: answers come from the center only, and what the agent holds or
sends is what it held before, up to its own entry. An answer that is taken and a new day are
the exceptions.
-/

namespace DnServer.Bullfight

open DnServer.Lib

namespace PlayerCenter

open RoomService (Uplose)

/-! ## An agent's own entry -/

/-- The agent's player and the entries of others stay; its own entry is not lost. -/
structure OwnEntry (g g' : Agent) : Prop where
  uid : g'.uid = g.uid
  others : ∀ v, g.uid ≠ some v → lost g'.uplose v = lost g.uplose v
  own : ∀ u, g.uid = some u → (lost g.uplose u).isSome → (lost g'.uplose u).isSome
  exited : g.exited = true → g'.exited = true

namespace OwnEntry

variable {g g' g'' : Agent}

theorem refl (g : Agent) : OwnEntry g g := ⟨rfl, fun _ _ => rfl, fun _ _ h => h, id⟩

theorem trans (h : OwnEntry g g') (h' : OwnEntry g' g'') : OwnEntry g g'' where
  uid := h'.uid.trans h.uid
  others v hv := (h'.others v (by rwa [h.uid])).trans (h.others v hv)
  own u hu hsome := h'.own u (h.uid.trans hu) (h.own u hu hsome)
  exited := h'.exited ∘ h.exited

theorem of_eq (huid : g'.uid = g.uid) (huplose : g'.uplose = g.uplose)
    (hexited : g.exited = true → g'.exited = true) : OwnEntry g g' :=
  ⟨huid, fun v _ => by rw [huplose], fun u _ h => by rwa [huplose], hexited⟩

/-- The agent writes its own entry. -/
theorem set {uid : Uid} {uplose : Uplose} (mine : Table RoomId ℚ) (huid : g.uid = some uid)
    (huplose : g.uplose = some uplose) (hsame : g'.uid = g.uid)
    (hset : g'.uplose = some (uplose.set uid mine)) (hexited : g'.exited = g.exited) :
    OwnEntry g g' where
  uid := hsame
  others v hv := by
    rw [hset, huplose]
    exact Table.get?_set_ne _ _ fun h => hv (by rw [huid, h])
  own u hu _ := by
    obtain rfl : uid = u := Option.some.inj (huid.symm.trans hu)
    rw [hset]
    exact Option.isSome_iff_exists.mpr ⟨mine, Table.get?_set_self _ _ _⟩
  exited h := hexited.trans h

theorem addLose (g : Agent) (money : ℚ) : OwnEntry g (g.addLose money) := by
  unfold Agent.addLose
  split
  · rename_i uid uplose huid huplose
    cases g.roomid <;> exact set _ huid huplose rfl rfl rfl
  · exact refl g

theorem openEntry (g : Agent) (roomid : RoomId) : OwnEntry g (g.openEntry roomid) := by
  unfold Agent.openEntry
  split
  · rename_i uid uplose huid huplose
    exact set _ huid huplose rfl rfl rfl
  · exact refl g

end OwnEntry

/-! ## What a step does to an agent's copies -/

theorem live_eq_some {s : State} {a : Address} {g : Agent} :
    live s a = some g ↔ s.agents.get? a = some g ∧ g.exited = false := by
  unfold live
  rw [Option.filter_eq_some_iff, Bool.not_eq_true']

/-- The message carries a copy of the ledger. -/
def Phase.carries : Phase → Bool
  | .answered _ reply => reply.ret = 0
  | .reporting _ _ => true
  | _ => false

/-- The copies of agent `a`, with those it has and sends only as long as `held`. -/
structure Passes (a : Address) (held : Prop) (s t : State) : Prop where
  answers : ∀ uid reply, reply.ret = 0 → ⟨a, .answered uid reply⟩ ∈ t.handlers →
    ⟨a, .answered uid reply⟩ ∈ s.handlers
  reports : held → ∀ uplose who, ⟨a, .reporting uplose who⟩ ∈ t.handlers →
    ⟨a, .reporting uplose who⟩ ∈ s.handlers ∨ ∃ g g', live s a = some g ∧ OwnEntry g g' ∧
      uplose = g'.uplose ∧ who.map Prod.fst = g'.uid
  agents : held → ∀ g', live t a = some g' → ∃ g, live s a = some g ∧ OwnEntry g g'

namespace Passes

variable {a : Address} {held : Prop} {s t u : State}

theorem refl (s : State) : Passes a held s s where
  answers _ _ _ h := h
  reports _ _ _ h := .inl h
  agents _ g h := ⟨g, h, .refl g⟩

theorem trans (h : Passes a held s t) (h' : Passes a held t u) : Passes a held s u where
  answers uid reply hret hm := h.answers uid reply hret (h'.answers uid reply hret hm)
  reports hheld uplose who hm := by
    rcases h'.reports hheld uplose who hm with hold | ⟨g, g', hg, hown, hsent⟩
    · exact h.reports hheld uplose who hold
    · obtain ⟨f, hf, hgrown⟩ := h.agents hheld g hg
      exact .inr ⟨f, g', hf, hgrown.trans hown, hsent⟩
  agents hheld g' hg' := by
    obtain ⟨g, hg, hown⟩ := h'.agents hheld g' hg'
    obtain ⟨f, hf, hgrown⟩ := h.agents hheld g hg
    exact ⟨f, hf, hgrown.trans hown⟩

/-- Handlers that are taken off the list. -/
theorem drop (s : State) (i : ℕ) : Passes a held s { s with handlers := s.handlers.eraseIdx i } where
  answers _ _ _ h := List.mem_of_mem_eraseIdx h
  reports _ _ _ h := .inl (List.mem_of_mem_eraseIdx h)
  agents _ g h := ⟨g, h, .refl g⟩

theorem withCenter (s : State) (c : Center) : Passes a held s (s.withCenter c) where
  answers _ _ _ h := h
  reports _ _ _ h := .inl h
  agents _ g h := ⟨g, h, .refl g⟩

theorem setAgent {b : Address} {f : Agent → Agent}
    (hf : held → b = a → ∀ g, OwnEntry g (f g)) : Passes a held s (s.setAgent b f) where
  answers _ _ _ h := h
  reports _ _ _ h := .inl h
  agents hheld g' hg' := by
    obtain ⟨hget, hexited⟩ := live_eq_some.mp hg'
    rw [State.setAgent, Table.get?_modify] at hget
    by_cases hab : a = b
    · rw [if_pos hab] at hget
      obtain ⟨g, hg, rfl⟩ := Option.map_eq_some_iff.mp hget
      have hown := hf hheld hab.symm g
      refine ⟨g, live_eq_some.mpr ⟨hg, Bool.eq_false_iff.mpr fun h => ?_⟩, hown⟩
      rw [hown.exited h] at hexited
      cases hexited
    · rw [if_neg hab] at hget
      exact ⟨g', live_eq_some.mpr ⟨hget, hexited⟩, .refl g'⟩

theorem suspend {b : Address} {phase : Phase} (hphase : b = a → phase.carries = false) :
    Passes a held s (s.suspend b phase) where
  answers uid reply hret h := by
    rcases List.mem_append.mp h with hold | hnew
    · exact hold
    · obtain ⟨rfl, rfl⟩ := Suspended.mk.inj (List.mem_singleton.mp hnew)
      exact absurd (hphase rfl) (by simp [Phase.carries, hret])
  reports _ uplose who h := by
    rcases List.mem_append.mp h with hold | hnew
    · exact .inl hold
    · obtain ⟨rfl, rfl⟩ := Suspended.mk.inj (List.mem_singleton.mp hnew)
      cases hphase rfl
  agents _ g h := ⟨g, h, .refl g⟩

/-- An agent sends what it has. -/
theorem report {b : Address} {g : Agent} {uplose : Option Uplose}
    {who : Option (Uid × SessionId)} (hg : live s b = some g) (huplose : uplose = g.uplose)
    (hwho : who.map Prod.fst = g.uid) :
    Passes a held s (s.suspend b (.reporting uplose who)) where
  answers uid reply _ h := by
    rcases List.mem_append.mp h with hold | hnew
    · exact hold
    · cases List.mem_singleton.mp hnew
  reports _ uplose' who' h := by
    rcases List.mem_append.mp h with hold | hnew
    · exact .inl hold
    · obtain ⟨rfl, hphase⟩ := Suspended.mk.inj (List.mem_singleton.mp hnew)
      obtain ⟨rfl, rfl⟩ := Phase.reporting.inj hphase
      exact .inr ⟨g, g, hg, .refl g, huplose, hwho⟩
  agents _ g h := ⟨g, h, .refl g⟩

theorem exitEnd (b : Address) (ret : Bool) : Passes a held s (exitEnd s b ret) := by
  refine setAgent fun _ _ g => ?_
  split
  · exact .of_eq rfl rfl fun _ => rfl
  · exact .of_eq rfl rfl id

theorem exit (b : Address) : Passes a held s (exit s b) := by
  unfold PlayerCenter.exit
  cases hg : live s b with
  | none => exact refl s
  | some g =>
    show Passes a held s (if _ then _ else _)
    split_ifs
    · exact refl s
    · have hlock : Passes a held s (s.setAgent b fun g => { g with lock := true }) :=
        setAgent fun _ _ _ => .of_eq rfl rfl id
      obtain ⟨hget, hexited⟩ := live_eq_some.mp hg
      have hlive : live (s.setAgent b fun g => { g with lock := true }) b =
          some { g with lock := true } := by
        refine live_eq_some.mpr ⟨?_, hexited⟩
        rw [State.setAgent, Table.get?_modify_self, hget]
        rfl
      cases huid : g.uid with
      | some uid => exact hlock.trans (report hlive rfl huid.symm)
      | none =>
        have hwho : Option.map (Prod.fst : Uid × SessionId → Uid) none = g.uid := huid.symm
        have hsent := hlock.trans (report hlive rfl hwho)
        exact hsent.trans (exitEnd b true)

/-- The agent whose login is answered is the exception. -/
theorem loginAnswered {b : Address} {uid : Uid} {reply : LoginReply} (hheld : held → b ≠ a) :
    Passes a held s (loginAnswered s b uid reply) := by
  have other : ∀ {s : State} {f : Agent → Agent}, Passes a held s (s.setAgent b f) :=
    setAgent fun h hba => absurd hba (hheld h)
  unfold PlayerCenter.loginAnswered
  cases live s b with
  | none => exact refl s
  | some g =>
    show Passes a held s (if _ then _ else _)
    split_ifs
    · exact other.trans (suspend fun _ => rfl)
    · cases reply.address with
      | none => exact other
      | some address =>
        cases reply.sid with
        | none => exact other
        | some sid =>
          show Passes a held s (if _ then _ else _)
          split_ifs
          · exact other.trans (exit b)
          · exact other
    · exact exit b

theorem exitLocked (env : Env) (b : Address) (uid : Uid) (succ : Bool) :
    Passes a held s (exitLocked env s b uid succ) := by
  have login : ∀ {s : State} {l : Bool}, Passes a held s (s.setAgent b fun g => { g with login := l }) :=
    setAgent fun _ _ _ => .of_eq rfl rfl id
  unfold PlayerCenter.exitLocked
  cases live s b with
  | none => exact refl s
  | some g =>
    cases succ with
    | false => exact exitEnd b false
    | true =>
      show Passes a held s (if _ then (if _ then _ else _) else _)
      rw [if_pos rfl]
      split_ifs
      · exact login.trans (suspend fun _ => rfl)
      · exact (login.trans login).trans (suspend fun _ => rfl)
      · exact login.trans (suspend fun _ => rfl)

end Passes

/-- The agent the center answers with success, and hands its ledger. -/
def handedTo (s : State) (e : Event) : Option Address :=
  match e, handlerOf s e with
  | .advance _ env, some ⟨a, .asking uid sessionid ptype⟩ =>
    if (eventLogin s.center env.now a uid sessionid ptype).2.any fun reply => reply.ret = 0 then
      some a
    else none
  | _, _ => none

/-- The agent that takes the answer to its login, or hears of a new day. -/
def Suspended.exchanges : Suspended → Option Address
  | ⟨a, .answered _ _⟩ => some a
  | ⟨a, .newDay⟩ => some a
  | _ => none

/-- The agent whose copy is exchanged. -/
def exchanged (s : State) (e : Event) : Option Address :=
  match e with
  | .connect a _ _ _ => some a
  | _ => (handlerOf s e).bind Suspended.exchanges

theorem advance_passes {a b : Address} {held : Prop} {s : State} {env : Env} {phase : Phase}
    (hasked : ∀ uid sessionid ptype, phase = .asking uid sessionid ptype → b = a →
      ∀ reply, (eventLogin s.center env.now b uid sessionid ptype).2 = some reply → reply.ret ≠ 0)
    (hanswer : held → ∀ uid reply, phase = .answered uid reply → b ≠ a)
    (hday : held → phase = .newDay → b ≠ a) : Passes a held s (advance env s b phase) := by
  -- the ledger is in the answer to a login and in a report; the other phases pass none on
  cases phase with
  | asking uid sessionid ptype =>
    have hanswers : ∀ phase, (b = a → phase.carries = false) → Passes a held s
        ((s.withCenter (eventLogin s.center env.now b uid sessionid ptype).1).suspend b phase) :=
      fun phase hphase => (Passes.withCenter s _).trans (.suspend hphase)
    unfold advance
    cases hr : (eventLogin s.center env.now b uid sessionid ptype).2 with
    | none =>
      simp only [hr]
      exact hanswers _ fun _ => rfl
    | some reply =>
      simp only [hr]
      exact hanswers _ fun hba => decide_eq_false (hasked uid sessionid ptype rfl hba reply hr)
  | redirecting uid sessionid ptype =>
    unfold advance
    cases hr : redirected s.center uid sessionid ptype env.oldaddress with
    | none =>
      simp only [hr]
      exact .refl s
    | some r =>
      obtain ⟨center, old, reply⟩ := r
      obtain ⟨player, _, hreply⟩ := Option.map_eq_some_iff.mp hr
      simp only [hr]
      refine ((Passes.withCenter s _).trans (.suspend fun _ => rfl)).trans (.suspend fun _ => ?_)
      rw [← (Prod.mk.inj (Prod.mk.inj hreply).2).2]
      rfl
  | answered uid reply => exact .loginAnswered fun h => hanswer h uid reply rfl
  | loading =>
    unfold advance
    cases live s b with
    | none => exact .refl s
    | some g =>
      show Passes a held s (if _ then _ else _)
      split_ifs
      · exact .setAgent fun _ _ _ => .of_eq rfl rfl id
      · exact .exit b
  | relogin sid address ptype =>
    unfold advance
    cases live s b with
    | none => exact .refl s
    | some g => exact .setAgent fun _ _ _ => .of_eq rfl rfl id
  | reporting uplose who =>
    unfold advance
    cases who with
    | none => exact .withCenter s _
    | some who => exact (Passes.withCenter s _).trans (.suspend fun _ => rfl)
  | locking uid sessionid => exact (Passes.withCenter s _).trans (.suspend fun _ => rfl)
  | locked uid succ => exact .exitLocked env b uid succ
  | quitting uid =>
    unfold advance
    cases live s b with
    | none => exact .refl s
    | some g =>
      refine Passes.trans (t := s.setAgent b fun g => { g with roomid := none }) ?_
        (.suspend fun _ => rfl)
      exact .setAgent fun _ _ _ => .of_eq rfl rfl id
  | unlocking uid => exact (Passes.withCenter s _).trans (.suspend fun _ => rfl)
  | unlocked =>
    unfold advance
    cases live s b with
    | none => exact .refl s
    | some g => exact .exitEnd b false
  | leaving uid sessionid =>
    unfold advance
    simp only
    cases live (s.withCenter (eventLoginOut s.center uid sessionid)) b with
    | none => exact .withCenter s _
    | some g => exact (Passes.withCenter s _).trans (.exitEnd b true)
  | newDay =>
    unfold advance
    cases live s b with
    | none => exact .refl s
    | some g => exact .setAgent fun h hba => absurd hba (hday h rfl)

/-- A step passes the copies of every agent on, but for the answer it gets and, as far as it
holds one, the copy it exchanges. -/
theorem exec_passes {a : Address} {held : Prop} {s t : State} {e : Event} (h : exec s e = some t)
    (hasked : handedTo s e ≠ some a) (hheld : held → exchanged s e ≠ some a) :
    Passes a held s t := by
  -- a handler of one agent changes no more than its own entry
  have onAgent : ∀ b (f : Agent → Agent), (∀ g, OwnEntry g (f g)) →
      Passes a held s (onAgent s b f) := by
    intro b f hf
    unfold PlayerCenter.onAgent
    cases live s b with
    | none => exact .refl s
    | some g => exact .setAgent fun _ _ => hf
  unfold exec at h
  by_cases haborted : s.center.aborted = true
  · rw [if_pos haborted] at h
    cases h
  rw [if_neg haborted] at h
  cases e with
  | connect b sessionid ptype client =>
    by_cases hb : b ∈ s.agents
    · simp [hb] at h
    simp only [if_neg hb, Option.some.injEq] at h
    subst h
    refine ⟨fun _ _ _ h => h, fun _ _ _ h => .inl h, fun hh g' hg' => ⟨g', ?_, .refl g'⟩⟩
    obtain ⟨hget, hexited⟩ := live_eq_some.mp hg'
    have hab : a ≠ b := fun h => hheld hh (congrArg some h.symm)
    exact live_eq_some.mpr ⟨(Table.get?_set_ne _ _ hab).symm.trans hget, hexited⟩
  | login b uid key =>
    obtain rfl := Option.some.inj h
    have hfresh : Passes a held s (s.setAgent b fun g => { g with fresh := false }) :=
      .setAgent fun _ _ _ => .of_eq rfl rfl id
    show Passes a held s (startLogin s b uid key)
    unfold startLogin
    cases live s b with
    | none => exact .refl s
    | some g =>
      show Passes a held s (if _ then _ else _)
      split_ifs
      · exact hfresh.trans (.suspend fun _ => rfl)
      · exact hfresh.trans (.exit b)
      · exact .refl s
  | exit b =>
    obtain rfl := Option.some.inj h
    exact .exit b
  | openEntry b roomid =>
    obtain rfl := Option.some.inj h
    exact onAgent b _ fun g => .openEntry g roomid
  | addLose b money =>
    obtain rfl := Option.some.inj h
    exact onAgent b _ fun g => .addLose g money
  | setRoom b roomid =>
    obtain rfl := Option.some.inj h
    exact onAgent b _ fun g => .of_eq rfl rfl id
  | setLock b lock =>
    obtain rfl := Option.some.inj h
    exact onAgent b _ fun g => .of_eq rfl rfl id
  | advance i env =>
    obtain ⟨⟨b, phase⟩, hx, rfl⟩ := Option.map_eq_some_iff.mp h
    have hx : handlerOf s (.advance i env) = some ⟨b, phase⟩ := hx
    refine (Passes.drop s i).trans (advance_passes ?_ ?_ ?_)
    · rintro uid sessionid ptype rfl rfl reply hreply hret
      refine hasked ?_
      unfold handedTo
      simp only [hx]
      exact if_pos (Option.any_eq_true _ _ |>.mpr ⟨reply, hreply, decide_eq_true hret⟩)
    · rintro hh uid reply rfl rfl
      exact hheld hh (congrArg (·.bind Suspended.exchanges) hx)
    · rintro hh rfl rfl
      exact hheld hh (congrArg (·.bind Suspended.exchanges) hx)
  | newDay =>
    obtain rfl := Option.some.inj h
    -- the calls about the new day carry no ledger
    have hold : ∀ {phase}, phase.carries = true → ⟨a, phase⟩ ∈ (startDay s).handlers →
        ⟨a, phase⟩ ∈ s.handlers := by
      intro phase hphase hm
      rcases List.mem_append.mp hm with hold | hnew
      · exact hold
      · obtain ⟨b, _, heq⟩ := List.mem_map.mp hnew
        obtain ⟨rfl, rfl⟩ := Suspended.mk.inj heq
        cases hphase
    exact ⟨fun _ _ hret => hold (decide_eq_true hret), fun _ _ _ h => .inl (hold rfl h),
      fun _ g h => ⟨g, h, .refl g⟩⟩
  | blockPlayer uid endtime =>
    obtain rfl := Option.some.inj h
    exact .withCenter s _
  | serverClose =>
    obtain rfl := Option.some.inj h
    exact .withCenter s _

end PlayerCenter

end DnServer.Bullfight
