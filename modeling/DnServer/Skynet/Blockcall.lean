import DnServer.Skynet.MessageQueue

/-!
# Blocking calls

`skynet.blockcall` locks the queue of the service for the session of the request
it sends next, and its handler ends. Messages go on arriving, in the handler's
dispatch and after it; a worker takes the queue up again once it is back in the
global queue. The message of the locked session is known by its number alone.
-/

namespace DnServer.Skynet

open DnServer.Lib

variable {α : Type}

def PTYPE_RESPONSE : ℕ := 1

/-- The response to the session `s` of the service. -/
def Message.Answers (m : Message α) (s : ℤ) : Prop := m.type = PTYPE_RESPONSE ∧ m.session = s

instance (m : Message α) (s : ℤ) : Decidable (m.Answers s) := inferInstanceAs (Decidable (_ ∧ _))

/-- What happens to the locked queue until it is dispatched again: messages that
arrive before the handler has ended, its end, and messages that arrive later. -/
def blocked (before after : List (Message α)) : List (QueueOp α) :=
  before.map .push ++ .pushglobal :: after.map .push

namespace QueueOp

def arrival : QueueOp α → Option (Message α)
  | .push m => some m
  | _ => none

/-- An operation of another service, or the end of the handler. -/
def Passive : QueueOp α → Prop
  | .push _ => True
  | .pushglobal => True
  | _ => False

end QueueOp

namespace MessageQueue

/-- The first message that is dispatched after the queue was locked for `s` is the response to
`s`, and no other message goes to the front or unlocks the queue. -/
structure Exclusive (q : MessageQueue α) (s : ℤ) (before after : List (Message α)) : Prop where
  first : ∀ (q' : MessageQueue α) (outs : List (Option (Message α))) (m : Message α),
    q.execAll (blocked before after) = some (q', outs) → q.pushed < q'.pushed →
      q'.pop.2 = some (some m) → m.Answers s
  others : ∀ (l l' : List (QueueOp α)) (m : Message α) (q₁ q₂ : MessageQueue α)
    (outs : List (Option (Message α))), blocked before after = l ++ .push m :: l' →
      ¬m.Answers s → q.execAll l = some (q₁, outs) → q₁.push m = some q₂ →
        q₂.lock_session = q₁.lock_session ∧
          ∀ d : Deque α, q₁.Represents d → q₂.Represents ⟨d.messages ++ [m], d.lock_session⟩

variable {q q₁ q₂ : MessageQueue α} {d : Deque α} {m : Message α} {s : ℤ} {p : ℕ}
  {l : List (QueueOp α)}

/-! ## What the locked queue can come to -/

/-- A queue that was locked for `s` when it had been put into the global queue `p` times. -/
inductive Waiting (s : ℤ) (p : ℕ) (q : MessageQueue α) : Prop
  | locked (hlock : q.lock_session = s)
      (hg : q.in_global = .MQ_DISPATCHING ∨ q.in_global = .MQ_LOCKED) (hp : q.pushed = p)
  | unlocked (hlock : q.lock_session = 0) (hg : q.in_global = .MQ_DISPATCHING) (hp : q.pushed = p)
  | woken (hlock : q.lock_session = 0) (hg : q.in_global = .MQ_IN_GLOBAL) (hp : p < q.pushed)

/-- A message that does not unlock the queue goes to the end. -/
theorem Waiting.push_behind (hs : s ≠ 0) (h : Waiting s p q)
    (hm : ¬(q.lock_session ≠ 0 ∧ m.session = q.lock_session)) :
    q.push m = some (q.pushtail m) ∧ Waiting s p (q.pushtail m) := by
  obtain ⟨h1, h2, h3⟩ := pushtail_flags (q := q) (m := m)
  cases h with
  | locked hlock hg hp =>
    refine ⟨MessageQueue.push_behind hm fun h0 => absurd (hlock.symm.trans h0) hs, ?_⟩
    exact .locked (h1.trans hlock) (h2.symm ▸ hg) (h3.trans hp)
  | unlocked hlock hg hp =>
    refine ⟨MessageQueue.push_behind hm fun _ => by rw [hg]; exact nofun, ?_⟩
    exact .unlocked (h1.trans hlock) (h2.trans hg) (h3.trans hp)
  | woken hlock hg hp =>
    refine ⟨MessageQueue.push_behind hm fun _ => by rw [hg]; exact nofun, ?_⟩
    exact .woken (h1.trans hlock) (h2.trans hg) (h3.symm ▸ hp)

theorem Waiting.push (hs : s ≠ 0) (h : Waiting s p q) :
    ∃ q', q.push m = some q' ∧ Waiting s p q' := by
  by_cases hm : q.lock_session ≠ 0 ∧ m.session = q.lock_session
  · obtain ⟨-, -, h3⟩ := putfront_flags (q := q) (m := m)
    obtain ⟨hdispatching, hlocked⟩ := push_answer hm.1 hm.2
    cases h with
    | locked hlock hg hp =>
      rcases hg with hg | hg
      · exact ⟨_, hdispatching hg, .unlocked rfl (putfront_flags.2.1.trans hg) (h3.trans hp)⟩
      · refine ⟨_, hlocked hg, .woken rfl rfl ?_⟩
        show p < (q.putfront m).pushed + 1
        rw [h3, hp]
        exact Nat.lt_succ_self p
    | unlocked hlock => exact absurd hlock hm.1
    | woken hlock => exact absurd hlock hm.1
  · exact ⟨_, h.push_behind hs hm⟩

theorem Waiting.pushglobal (hs : s ≠ 0) (h : Waiting s p q) :
    ∃ q', q.pushglobal = some q' ∧ Waiting s p q' := by
  unfold MessageQueue.pushglobal
  cases h with
  | locked hlock hg hp =>
    have hs' : ¬q.lock_session = 0 := hlock ▸ hs
    rcases hg with hg | hg
    · simp only [hg, reduceCtorEq, if_false, if_true, hs']
      exact ⟨_, rfl, .locked hlock (.inr rfl) hp⟩
    · simp only [hg, reduceCtorEq, if_false, hs']
      exact ⟨_, rfl, .locked hlock (.inr hg) hp⟩
  | unlocked hlock hg hp =>
    simp only [hg, reduceCtorEq, if_false, if_true, hlock]
    exact ⟨_, rfl, .woken rfl rfl (hp ▸ Nat.lt_succ_self _)⟩
  | woken hlock hg hp =>
    simp only [hg, reduceCtorEq, if_false, hlock, if_true]
    exact ⟨_, rfl, .woken hlock rfl (Nat.lt_succ_of_lt hp)⟩

/-- Whatever arrives, no assertion fails. -/
theorem Waiting.execAll (hs : s ≠ 0) (h : Waiting s p q) (hl : ∀ op ∈ l, op.Passive) :
    ∃ q', q.execAll l = some (q', []) ∧ Waiting s p q' := by
  induction l generalizing q with
  | nil => exact ⟨q, rfl, h⟩
  | cons op l ih =>
    have hstep : ∃ q₁, q.exec op = some (q₁, none) ∧ Waiting s p q₁ := by
      cases op with
      | push m =>
        obtain ⟨q₁, hpush, hw⟩ := h.push (m := m) hs
        exact ⟨q₁, Option.map_eq_some_iff.mpr ⟨q₁, hpush, rfl⟩, hw⟩
      | pushglobal =>
        obtain ⟨q₁, hpush, hw⟩ := h.pushglobal hs
        exact ⟨q₁, Option.map_eq_some_iff.mpr ⟨q₁, hpush, rfl⟩, hw⟩
      | pop => exact (hl _ (List.mem_cons_self ..)).elim
      | lock => exact (hl _ (List.mem_cons_self ..)).elim
    obtain ⟨q₁, hexec, hw⟩ := hstep
    obtain ⟨q', hrun, hw'⟩ := ih hw fun op hop => hl op (List.mem_cons_of_mem _ hop)
    refine ⟨q', ?_, hw'⟩
    rw [MessageQueue.execAll, hexec, Option.bind_some, hrun]
    rfl

end MessageQueue

/-! ## The locked deque -/

namespace Deque

variable {d : Deque α} {m : Message α} {s : ℤ} {l : List (QueueOp α)}

theorem unlocked_execAll (h0 : d.lock_session = 0) (hl : ∀ op ∈ l, op.Passive) :
    (d.execAll l).1 = ⟨d.messages ++ l.filterMap QueueOp.arrival, 0⟩ := by
  induction l generalizing d with
  | nil =>
    rw [List.filterMap_nil, List.append_nil, ← h0]
    rfl
  | cons op l ih =>
    have hl' : ∀ op ∈ l, op.Passive := fun op hop => hl op (List.mem_cons_of_mem _ hop)
    cases op with
    | push m =>
      have hpush : d.push m = ⟨d.messages ++ [m], d.lock_session⟩ := if_neg fun h => h.1 h0
      simp only [Deque.execAll, Deque.exec, hpush]
      have hrest := ih (d := ⟨d.messages ++ [m], d.lock_session⟩) h0 hl'
      rw [hrest, List.append_assoc]
      rfl
    | pushglobal =>
      simp only [Deque.execAll, Deque.exec]
      exact ih h0 hl'
    | pop => exact (hl _ (List.mem_cons_self ..)).elim
    | lock => exact (hl _ (List.mem_cons_self ..)).elim

/-- The first message of the session gets to the front and unlocks; before it nothing does. -/
theorem locked_execAll (hs : s ≠ 0) (hd : d.lock_session = s) (hl : ∀ op ∈ l, op.Passive) :
    ((l.filterMap QueueOp.arrival).find? (·.session = s) = none →
      (d.execAll l).1.lock_session = s) ∧
    ∀ m, (l.filterMap QueueOp.arrival).find? (·.session = s) = some m →
      (d.execAll l).1.lock_session = 0 ∧ (d.execAll l).1.messages.head? = some m := by
  induction l generalizing d with
  | nil =>
    refine ⟨fun _ => hd, ?_⟩
    intro m heq
    cases heq
  | cons op l ih =>
    have hl' : ∀ op ∈ l, op.Passive := fun op hop => hl op (List.mem_cons_of_mem _ hop)
    cases op with
    | push m =>
      have hfirst : (QueueOp.push m :: l).filterMap QueueOp.arrival =
          m :: l.filterMap QueueOp.arrival := rfl
      rw [hfirst]
      by_cases hm : m.session = s
      · have hpush : d.push m = ⟨m :: d.messages, 0⟩ := if_pos ⟨hd ▸ hs, hm.trans hd.symm⟩
        have hfind : (m :: l.filterMap QueueOp.arrival).find? (·.session = s) = some m :=
          List.find?_cons_of_pos (p := fun m : Message α => decide (m.session = s)) (decide_eq_true hm)
        rw [hfind]
        simp only [Deque.execAll, Deque.exec, hpush]
        rw [unlocked_execAll rfl hl']
        refine ⟨?_, ?_⟩
        · intro heq
          cases heq
        · intro m' heq
          cases heq
          exact ⟨rfl, rfl⟩
      · have hpush : d.push m = ⟨d.messages ++ [m], d.lock_session⟩ :=
          if_neg fun h => hm (h.2.trans hd)
        have hfind : (m :: l.filterMap QueueOp.arrival).find? (·.session = s) =
            (l.filterMap QueueOp.arrival).find? (·.session = s) :=
          List.find?_cons_of_neg (p := fun m : Message α => decide (m.session = s))
            (by rw [decide_eq_true_iff]; exact hm)
        rw [hfind]
        simp only [Deque.execAll, Deque.exec, hpush]
        exact ih hd hl'
    | pushglobal =>
      rw [List.filterMap_cons_none rfl]
      simp only [Deque.execAll, Deque.exec]
      exact ih hd hl'
    | pop => exact (hl _ (List.mem_cons_self ..)).elim
    | lock => exact (hl _ (List.mem_cons_self ..)).elim

end Deque

/-! ## When the call is exclusive -/

theorem blocked_passive (before after : List (Message α)) :
    ∀ op ∈ blocked before after, op.Passive := by
  intro op hop
  rcases List.mem_append.mp hop with h | h
  · obtain ⟨m, -, rfl⟩ := List.mem_map.mp h
    trivial
  · rcases List.mem_cons.mp h with rfl | h
    · trivial
    · obtain ⟨m, -, rfl⟩ := List.mem_map.mp h
      trivial

theorem blocked_arrivals {before after : List (Message α)} :
    (blocked before after).filterMap QueueOp.arrival = before ++ after := by
  have hpush : ∀ l : List (Message α), (l.map .push).filterMap QueueOp.arrival = l := by
    intro l
    rw [List.filterMap_map]
    exact List.filterMap_some
  unfold blocked
  rw [List.filterMap_append, hpush, List.filterMap_cons_none rfl, hpush]

/-- The first message of a session splits the operations. -/
theorem split_first {l : List (QueueOp α)} {m : Message α} {s : ℤ}
    (h : (l.filterMap QueueOp.arrival).find? (·.session = s) = some m) :
    ∃ l₁ l₂, l = l₁ ++ .push m :: l₂ ∧
      (l₁.filterMap QueueOp.arrival).find? (·.session = s) = none := by
  obtain ⟨-, as, bs, heq, hnone⟩ := List.find?_eq_some_iff_append.mp h
  obtain ⟨l₁, l₂, rfl, h1, h2⟩ := List.filterMap_eq_append_iff.mp heq
  obtain ⟨l₃, op, l₄, rfl, h3, h4, -⟩ := List.filterMap_eq_cons_iff.mp h2
  refine ⟨l₁ ++ l₃, l₄, ?_, ?_⟩
  · have hop : op = .push m := by
      cases op with
      | push m' =>
        cases h4
        rfl
      | _ => cases h4
    rw [hop, List.append_assoc]
  · rw [List.filterMap_append, h1, List.filterMap_eq_nil_iff.mpr h3, List.append_nil]
    exact List.find?_eq_none.mpr fun a ha => by simpa using hnone a ha

namespace MessageQueue

variable {q ql : MessageQueue α} {d : Deque α} {s : ℤ} {before after : List (Message α)}

/-- After `skynet_mq_lock` the queue waits for the session. -/
theorem lock_waiting (hlock : q.lock s = some ql) (h : q.Represents d) :
    Waiting s ql.pushed ql ∧ ql.Represents ⟨d.messages, s⟩ := by
  unfold MessageQueue.lock at hlock
  split at hlock
  · obtain rfl := Option.some.inj hlock
    exact ⟨.locked rfl (.inl rfl) rfl, h.flags rfl rfl rfl rfl⟩
  · exact absurd hlock (Option.some_ne_none _).symm

/-- What passes on a locked queue passes on its deque, and the queue goes on waiting. -/
theorem locked_run {l : List (QueueOp α)} {q₁ : MessageQueue α}
    {outs : List (Option (Message α))} {p : ℕ} (hs : s ≠ 0) (hw : Waiting s p q)
    (h : q.Represents d) (hl : ∀ op ∈ l, op.Passive) (hrun : q.execAll l = some (q₁, outs)) :
    Waiting s p q₁ ∧ q₁.Represents (d.execAll l).1 := by
  obtain ⟨q₂, hrun₂, hw₂⟩ := hw.execAll hs hl
  obtain ⟨rfl, -⟩ := Prod.mk.inj (Option.some.inj (hrun.symm.trans hrun₂))
  exact ⟨hw₂, (h.execAll hrun).1⟩

/-- **Blocking calls.** The call is exclusive just when the first message of its session
number to arrive, if one arrives, is its response. -/
theorem blockcall_exclusive_iff (handle : ℕ) (ops : List (QueueOp α))
    {outs : List (Option (Message α))} (hs : s ≠ 0)
    (hrun : (create handle : MessageQueue α).execAll ops = some (q, outs))
    (hlock : q.lock s = some ql) (before after : List (Message α)) :
    ql.Exclusive s before after ↔
      ∀ m, (before ++ after).find? (·.session = s) = some m → m.Answers s := by
  obtain ⟨hw, hrep⟩ := lock_waiting hlock ((create_represents handle).execAll hrun).1
  generalize ((Deque.execAll ⟨[], 0⟩ ops).1 : Deque α).messages = waiting at hrep
  rw [← blocked_arrivals]
  constructor
  · -- a wrong first message would unlock the queue
    intro hex m hm
    by_contra hno
    obtain ⟨l, l', heq, hnone⟩ := split_first hm
    have hl : ∀ op ∈ l, op.Passive := fun op hop =>
      blocked_passive before after op (heq ▸ List.mem_append_left _ hop)
    obtain ⟨q₁, hrun₁, hw₁⟩ := hw.execAll hs hl
    obtain ⟨q₂, hpush, -⟩ := hw₁.push (m := m) hs
    have hrep₁ := (hrep.execAll hrun₁).1
    obtain ⟨hkeep, -⟩ := hex.others l l' m q₁ q₂ [] heq hno hrun₁ hpush
    have hs₁ : q₁.lock_session = s :=
      hrep₁.lock_session.trans ((Deque.locked_execAll hs rfl hl).1 hnone)
    have hms : m.session = s := by simpa using List.find?_some hm
    have hunlocked := (hrep₁.push hpush).lock_session
    rw [Deque.push, if_pos ⟨hrep₁.lock_session ▸ hs₁ ▸ hs, hms.trans (hs₁.symm.trans
      hrep₁.lock_session)⟩] at hunlocked
    exact hs (hs₁.symm.trans (hkeep.symm.trans hunlocked))
  · intro hfirst
    refine ⟨fun q' outs m hrun' hwoken hpop => ?_, fun l l' m q₁ q₂ outs heq hno hrun₁ hpush => ?_⟩
    · obtain ⟨hw', hrep'⟩ := locked_run hs hw hrep (blocked_passive before after) hrun'
      obtain ⟨hnone, hsome⟩ := Deque.locked_execAll (d := ⟨waiting, s⟩) hs rfl
        (blocked_passive before after)
      cases hfind : ((blocked before after).filterMap QueueOp.arrival).find? (·.session = s) with
      | none =>
        -- nothing unlocked the queue, and it is not dispatched
        have hlocked := hrep'.lock_session.trans (hnone hfind)
        cases hw' with
        | locked _ _ hp => exact absurd hp (by omega)
        | unlocked h0 => exact absurd (hlocked.symm.trans h0) hs
        | woken h0 => exact absurd (hlocked.symm.trans h0) hs
      | some m' =>
        have hhead := (hrep'.pop).2
        rw [hpop] at hhead
        have hm' : some m = some m' := by
          refine Option.some.inj (Eq.trans ?_ (congrArg (Option.map some) (hsome m' hfind).2))
          exact hhead
        cases hm'
        exact hfirst m hfind
    · have hl : ∀ op ∈ l, op.Passive := fun op hop =>
        blocked_passive before after op (heq ▸ List.mem_append_left _ hop)
      obtain ⟨hw₁, hrep₁⟩ := locked_run hs hw hrep hl hrun₁
      have hbehind : ¬(q₁.lock_session ≠ 0 ∧ m.session = q₁.lock_session) := by
        rintro ⟨h0, hms⟩
        have hs₁ : q₁.lock_session = s := by
          cases hw₁ with
          | locked hlock => exact hlock
          | unlocked h => exact absurd h h0
          | woken h => exact absurd h h0
        -- still locked, so it is the first message of the session
        refine hno (hfirst m ?_)
        rw [heq, List.filterMap_append, List.find?_append]
        cases hfind : (l.filterMap QueueOp.arrival).find? (·.session = s) with
        | none =>
          rw [Option.none_or]
          exact List.find?_cons_of_pos (p := fun m : Message α => decide (m.session = s))
            (decide_eq_true (hms.trans hs₁))
        | some m' =>
          have hopen := ((Deque.locked_execAll (d := ⟨waiting, s⟩) hs rfl hl).2 m' hfind).1
          exact absurd (hrep₁.lock_session.trans hopen) h0
      obtain ⟨hpush', -⟩ := hw₁.push_behind hs hbehind
      obtain rfl := Option.some.inj (hpush.symm.trans hpush')
      exact ⟨pushtail_flags.1, fun d' hd' => hd'.pushtail⟩

/-- A service that dispatches its first message locks for session 5: the response comes
first, and a request that another service numbered 5 comes behind it. -/
theorem blockcall_exclusive_response_first :
    ∃ ql, (((create 1 : MessageQueue ℕ).push ⟨2, 0, 10, 7⟩).bind fun q => q.pop.1.lock 5) = some ql ∧
      ql.Exclusive 5 [] [⟨4, 5, 1, 9⟩, ⟨3, 5, 10, 8⟩] :=
  ⟨_, rfl, (blockcall_exclusive_iff 1 [.push ⟨2, 0, 10, 7⟩, .pop] (by decide) rfl rfl
    [] _).mpr fun m hm => by
      obtain rfl := Option.some.inj hm
      exact ⟨rfl, rfl⟩⟩

/-- The request comes first: it unlocks the queue and is dispatched before the response. -/
theorem blockcall_taken_by_request :
    ∃ ql, (((create 1 : MessageQueue ℕ).push ⟨2, 0, 10, 7⟩).bind fun q => q.pop.1.lock 5) = some ql ∧
      ¬ql.Exclusive 5 [] [⟨3, 5, 10, 8⟩, ⟨4, 5, 1, 9⟩] :=
  ⟨_, rfl, fun hex => absurd (hex.first _ _ ⟨3, 5, 10, 8⟩ rfl (by decide) rfl) (by decide)⟩

end MessageQueue

end DnServer.Skynet
