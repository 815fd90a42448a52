import DnServer.Skynet.Token

/-!
# The scheduling of the services

A step of a thread concerns one queue and leaves what is true of the others. No
queue is twice in the global queue or with two workers, and none is lost, while
no context is deleted in the middle of a dispatch that has locked the queue,
no worker looks at a queue between its being put into the global queue for its
release and its being marked, and the global queue has room.

* `sound_of_careful`: who may do what with a queue is a `Token`: it is in the global
  queue, with one worker, or waits for a message that will put it back. One lemma for
  each step keeps the tally.
-/

namespace DnServer.Skynet

open DnServer.Lib
open Role

variable {α : Type}

theorem Thread.join_comm (q : ℕ) (t t' : Thread) (roles : Multiset Role) :
    t.join q (t'.join q roles) = t'.join q (t.join q roles) := by
  cases t with
  | idle => rfl
  | busy role q₁ =>
    cases t' with
    | idle => rfl
    | busy role' q₂ =>
      simp only [Thread.join]
      split
      · split
        · exact Multiset.cons_swap _ _ _
        · rfl
      · rfl

/-- The thread stands at queue `q` or nowhere. -/
def Thread.At (q : ℕ) : Thread → Prop
  | .idle => True
  | .busy _ q' => q' = q

namespace Sched

/-- The roles of the threads that stand at queue `q`. -/
def roles (s : Sched α) (q : ℕ) : Multiset Role := s.threads.foldr (Thread.join q) 0

/-- The global queue has room for one more. -/
def Room (s : Sched α) : Prop := s.globalmq.entries.length + 1 < MAX_GLOBAL_MQ

/-- What is true of all queues between two steps. -/
structure Fine (s : Sched α) : Prop where
  fault : s.fault = none
  ring : s.globalmq.Represents s.globalmq.entries
  services : ∀ q < s.launched,
    (s.services q).Fine (s.globalmq.entries.count q) (s.roles q)
  fresh : ∀ q, s.launched ≤ q → (s.services q).registered = false ∧ (s.services q).ref = 0 ∧
    s.globalmq.entries.count q = 0 ∧ s.roles q = 0

variable {s : Sched α} {i q : ℕ} {t t' : Thread}

theorem count_eq (s : Sched α) (f : Role → Bool) (q : ℕ) : s.count f q = tally f (s.roles q) := by
  unfold count roles
  induction s.threads with
  | nil => simp
  | cons t ts ih =>
    rw [List.countP_cons, ih, List.foldr_cons]
    cases t with
    | idle => simp [Thread.join]
    | busy role q' =>
      by_cases hq : q' = q <;> cases hf : f role <;> simp [Thread.join, hq, hf]

/-- One thread among the others. -/
theorem foldr_set {ts : List Thread} (q : ℕ) (hi : ts[i]? = some t) :
    ∃ rest, ts.foldr (Thread.join q) 0 = t.join q rest ∧
      ∀ t', (ts.set i t').foldr (Thread.join q) 0 = t'.join q rest := by
  induction ts generalizing i with
  | nil => cases hi
  | cons first ts ih =>
    cases i with
    | zero =>
      obtain rfl := Option.some.inj hi
      exact ⟨ts.foldr (Thread.join q) 0, rfl, fun _ => rfl⟩
    | succ i =>
      obtain ⟨rest, hrest, hset⟩ := ih hi
      refine ⟨first.join q rest, ?_, fun t' => ?_⟩
      · rw [List.foldr_cons, hrest, Thread.join_comm]
      · rw [List.set_cons_succ, List.foldr_cons, hset, Thread.join_comm]

theorem join_other {q' : ℕ} (ht : t.At q) (hq : q' ≠ q) (roles : Multiset Role) :
    t.join q' roles = roles := by
  cases t with
  | idle => rfl
  | busy role q₁ => exact if_neg (ht ▸ hq.symm)

/-- A step that concerns queue `q` only. -/
theorem Fine.at {s' : Sched α} {v : Service α} (h : s.Fine) (hi : s.threads[i]? = some t)
    (ht : t.At q) (ht' : t'.At q) (hq : q < s.launched)
    (hfault : s'.fault = none) (hlaunched : s'.launched = s.launched)
    (hthreads : s'.threads = s.threads.set i t')
    (hservices : s'.services = Function.update s.services q v)
    (hring : s'.globalmq.Represents s'.globalmq.entries)
    (hother : ∀ q' ≠ q, s'.globalmq.entries.count q' = s.globalmq.entries.count q')
    (hv : ∀ roles, s.roles q = t.join q roles →
      (s.services q).Fine (s.globalmq.entries.count q) (t.join q roles) →
      v.Fine (s'.globalmq.entries.count q) (t'.join q roles)) : s'.Fine := by
  have hroles : ∀ q' ≠ q, s'.roles q' = s.roles q' := by
    intro q' hne
    obtain ⟨rest, hrest, hset⟩ := foldr_set q' hi
    unfold roles
    rw [hthreads, hset, hrest, join_other ht hne, join_other ht' hne]
  refine ⟨hfault, hring, fun q' hq' => ?_, fun q' hq' => ?_⟩
  · rw [hlaunched] at hq'
    by_cases hne : q' = q
    · subst hne
      obtain ⟨rest, hrest, hset⟩ := foldr_set q' hi
      have hold := h.services q' hq'
      have hnew : s'.roles q' = t'.join q' rest := by
        rw [← hset, ← hthreads, roles]
      rw [show s.roles q' = t.join q' rest from hrest] at hold
      rw [hnew, hservices, Function.update_self]
      exact hv rest hrest hold
    · rw [hservices, Function.update_of_ne hne, hother q' hne, hroles q' hne]
      exact h.services q' hq'
  · rw [hlaunched] at hq'
    have hne : q' ≠ q := by omega
    rw [hservices, Function.update_of_ne hne, hother q' hne, hroles q' hne]
    exact h.fresh q' hq'

/-- A step without the global queue. -/
theorem Fine.moved {v : Service α} (h : s.Fine) (hi : s.threads[i]? = some t)
    (ht : t.At q) (ht' : t'.At q) (hq : q < s.launched)
    (hv : ∀ roles, s.roles q = t.join q roles →
      (s.services q).Fine (s.globalmq.entries.count q) (t.join q roles) →
      v.Fine (s.globalmq.entries.count q) (t'.join q roles)) :
    ((s.setService q v).go i t').Fine := by
  have hglobal : ((s.setService q v).go i t').globalmq = s.globalmq := rfl
  refine h.at hi ht ht' hq h.fault rfl rfl rfl ?_ ?_ ?_ <;> rw [hglobal]
  · exact h.ring
  · exact fun _ _ => rfl
  · exact hv

/-- A step that puts the queue into the global queue. -/
theorem Fine.pushed {v : Service α} (h : s.Fine) (hi : s.threads[i]? = some t)
    (ht : t.At q) (ht' : t'.At q) (hq : q < s.launched) (hroom : s.Room)
    (hv : ∀ roles, s.roles q = t.join q roles →
      (s.services q).Fine (s.globalmq.entries.count q) (t.join q roles) →
      v.Fine (s.globalmq.entries.count q + 1) (t'.join q roles)) :
    (((s.setService q v).globalmq_push q).go i t').Fine := by
  have hglobal : (((s.setService q v).globalmq_push q).go i t').globalmq = s.globalmq.push q := rfl
  have hring := h.ring.push (q := q) hroom
  have hentries := hring.entries
  refine h.at hi ht ht' hq h.fault rfl rfl rfl ?_ ?_ ?_ <;> rw [hglobal, hentries]
  · exact hring
  · intro q' hne
    rw [List.count_append, List.count_singleton, if_neg (by simpa using hne.symm), Nat.add_zero]
  · rw [List.count_append, List.count_singleton_self]
    exact hv

/-- An operation on the queue by a thread that stands there. -/
theorem Fine.operate {mq : Option (MessageQueue α)} (h : s.Fine) (hi : s.threads[i]? = some t)
    (ht : t.At q) (ht' : t'.At q) (hq : q < s.launched)
    (hroom : ∀ mq', mq = some mq' → mq'.pushed ≠ (s.services q).mq.pushed → s.Room)
    (hv : ∀ roles, s.roles q = t.join q roles →
      (s.services q).Fine (s.globalmq.entries.count q) (t.join q roles) →
      (s.services q).freed = false ∧
        (s.services q).Keeps (s.globalmq.entries.count q) mq (t'.join q roles)) :
    (s.operate i q mq t').Fine := by
  obtain ⟨rest, hrest, -⟩ := foldr_set q hi
  have hold := h.services q hq
  unfold roles at hold
  rw [hrest] at hold
  obtain ⟨hfreed, mq', k, rfl, hpushed, hk, -⟩ := hv rest hrest hold
  have hkeeps : ∀ roles, s.roles q = t.join q roles →
      (s.services q).Fine (s.globalmq.entries.count q) (t.join q roles) →
      Service.Fine { s.services q with mq := mq' } (s.globalmq.entries.count q + k)
        (t'.join q roles) := by
    intro roles hroles hold
    obtain ⟨-, mq₂, k₂, heq, hpushed₂, -, hfine⟩ := hv roles hroles hold
    obtain rfl := Option.some.inj heq
    obtain rfl : k = k₂ := by omega
    exact hfine
  unfold Sched.operate setMq
  rw [if_neg (by simp [hfreed])]
  dsimp only
  by_cases hsame : mq'.pushed = (s.services q).mq.pushed
  · obtain rfl : k = 0 := by omega
    rw [Nat.add_zero] at hkeeps
    rw [if_pos hsame]
    exact h.moved hi ht ht' hq hkeeps
  · obtain rfl : k = 1 := by omega
    rw [if_neg hsame]
    exact h.pushed hi ht ht' hq (hroom mq' rfl hsame) hkeeps

/-- A thread moves on and nothing else changes. -/
theorem Fine.go (h : s.Fine) (hi : s.threads[i]? = some t) (ht : t.At q) (ht' : t'.At q)
    (hq : q < s.launched)
    (hv : ∀ roles, s.roles q = t.join q roles →
      (s.services q).Fine (s.globalmq.entries.count q) (t.join q roles) →
      (s.services q).Fine (s.globalmq.entries.count q) (t'.join q roles)) : (s.go i t').Fine := by
  have hsame : s.setService q (s.services q) = s := by simp [setService]
  have hmoved := h.moved hi ht ht' hq hv
  rwa [hsame] at hmoved

/-- A thread that stands at a queue: the queue has been launched. -/
theorem Fine.launched {role : Role} (h : s.Fine) (hi : s.threads[i]? = some (.busy role q)) :
    q < s.launched := by
  by_contra hq
  have hnone := (h.fresh q (by omega)).2.2.2
  obtain ⟨rest, hrest, -⟩ := foldr_set q hi
  unfold roles at hnone
  rw [hrest, Thread.join, if_pos rfl] at hnone
  exact Multiset.cons_ne_zero hnone

/-- The threads at a queue, one of which is this. -/
theorem Fine.service {role : Role} (h : s.Fine) (hi : s.threads[i]? = some (.busy role q)) :
    ∃ rest, (s.services q).Fine (s.globalmq.entries.count q) (role ::ₘ rest) := by
  obtain ⟨rest, hrest, -⟩ := foldr_set q hi
  have hold := h.services q (h.launched hi)
  unfold roles at hold
  rw [hrest, Thread.join, if_pos rfl] at hold
  exact ⟨rest, hold⟩

/-! ## The steps of a thread at a queue -/

/-- What the next step of a thread at `q` must find, for nothing to go wrong. -/
def Calm (s : Sched α) (q : ℕ) : Role → Prop
  | .orphan => (s.services q).mq.release = false →
      s.Room ∧ ((s.services q).mq.in_global = .out → s.count marks q = 0)
  | .pushing => s.Room
  | .offering _ => s.Room
  | .deleting _ => (s.services q).mq.in_global ≠ .MQ_DISPATCHING
  | _ => True

theorem pop_pushed (q : MessageQueue α) : q.pop.1.pushed = q.pushed := by
  unfold MessageQueue.pop
  split <;> rfl

theorem Fine.next {role : Role} {s' : Sched α} (h : s.Fine)
    (hi : s.threads[i]? = some (.busy role q)) (hc : s.Calm q role)
    (hx : s.next i q role = some s') : s'.Fine := by
  have hq := h.launched hi
  obtain ⟨rest, hold⟩ := h.service hi
  -- each step trades the tokens of its role for those of the next; the queue is the one it works on
  cases role with
  | popped =>
    have hw := hold.worker (by grind)
    simp only [Sched.next, hw.1] at hx
    split at hx
    · cases hx
    · simp only [Bool.false_eq_true, if_false] at hx
      split at hx
      · rename_i hreg
        obtain rfl := Option.some.inj hx
        refine h.moved hi rfl rfl hq fun roles hat hr => ?_
        simp only [Thread.join, if_true] at hr ⊢
        exact hr.context_grab hreg
      · obtain rfl := Option.some.inj hx
        refine h.go hi rfl rfl hq fun roles hat hr => ?_
        simp only [Thread.join, if_true] at hr ⊢
        exact hr.orphan
  | orphan =>
    have hw := hold.worker (by grind)
    simp only [Sched.next, hw.1, and_true] at hx
    split at hx
    · rename_i hrel
      obtain rfl := Option.some.inj hx
      refine h.go hi rfl rfl hq fun roles hat hr => ?_
      simp only [Thread.join, if_true] at hr ⊢
      exact hr.drop hrel
    · rename_i hrel
      have hrel : (s.services q).mq.release = false := by simpa using hrel
      -- the service was grabbed again meanwhile: the queue goes back behind the others
      obtain ⟨hroom, hmarks⟩ := hc hrel
      obtain rfl := Option.some.inj hx
      refine h.operate hi rfl trivial hq (fun _ _ _ => hroom) fun roles hat hr => ?_
      simp only [Thread.join, if_true] at hr ⊢
      refine ⟨hw.1, hr.force_push hrel fun hout => ?_⟩
      have hnone := hmarks hout
      rw [count_eq, hat] at hnone
      simp only [Thread.join, if_true, tally_cons] at hnone
      omega
  | grabbed =>
    obtain rfl := Option.some.inj hx
    have hw := hold.worker (by grind)
    refine h.operate hi rfl ?_ hq ?_ fun roles hat hr => ?_
    · split <;> rfl
    · intro mq' hmq hne
      obtain rfl := Option.some.inj hmq
      exact absurd (pop_pushed _) hne
    · simp only [Thread.join, if_true] at hr
      exact ⟨hw.1, hr.pop q⟩
  | dispatching locked =>
    obtain rfl := Option.some.inj hx
    refine h.moved hi rfl ?_ hq fun roles hat hr => ?_
    · split <;> rfl
    · simp only [Thread.join, if_true] at hr
      exact hr.dispatched q
  | pushing =>
    obtain rfl := Option.some.inj hx
    have hw := hold.worker (by grind)
    refine h.operate hi rfl trivial hq (fun _ _ _ => hc) fun roles hat hr => ?_
    simp only [Thread.join, if_true] at hr ⊢
    exact ⟨hw.1, hr.pushglobal⟩
  | leaving =>
    obtain rfl := Option.some.inj hx
    refine h.moved hi rfl ?_ hq fun roles hat hr => ?_
    · split <;> trivial
    · simp only [Thread.join, if_true] at hr
      exact hr.released_by (.inl rfl) q
  | dropping =>
    obtain rfl := Option.some.inj hx
    have hw := hold.worker (by grind)
    refine h.operate hi rfl ?_ hq ?_ fun roles hat hr => ?_
    · split <;> rfl
    · intro mq' hmq hne
      obtain rfl := Option.some.inj hmq
      exact absurd (pop_pushed _) hne
    · simp only [Thread.join, if_true] at hr
      exact ⟨hw.1, hr.drop_pop q⟩
  | freeing =>
    have hw := hold.worker (by grind)
    simp only [Sched.next, hw.1, Bool.false_eq_true, if_false] at hx
    obtain rfl := Option.some.inj hx
    refine h.moved hi rfl trivial hq fun roles hat hr => ?_
    simp only [Thread.join, if_true] at hr ⊢
    exact hr.free
  | holding =>
    obtain rfl := Option.some.inj hx
    refine h.moved hi rfl ?_ hq fun roles hat hr => ?_
    · split <;> trivial
    · simp only [Thread.join, if_true] at hr
      exact hr.released_by (.inr rfl) q
  | deleting after =>
    have hd := hold.deleting (by grind)
    simp only [Sched.next, hd.1, hd.2, Bool.false_eq_true, if_false] at hx
    -- the last reference is gone: the queue is marked, and offered if no worker has it
    have hmark := fun roles (hr : (s.services q).Fine (s.globalmq.entries.count q)
      (.deleting after ::ₘ roles)) => hr.mark_release hc
    split at hx
    · rename_i hg
      obtain rfl := Option.some.inj hx
      refine h.go hi rfl rfl hq fun roles hat hr => ?_
      simp only [Thread.join, if_true] at hr ⊢
      simpa only [if_pos hg] using hmark roles hr
    · rename_i hg
      obtain rfl := Option.some.inj hx
      refine h.go hi rfl rfl hq fun roles hat hr => ?_
      simp only [Thread.join, if_true] at hr ⊢
      simpa only [if_neg hg] using hmark roles hr
  | offering after =>
    obtain rfl := Option.some.inj hx
    have hsame : s.setService q (s.services q) = s := by simp [setService]
    have hpushed : (((s.setService q (s.services q)).globalmq_push q).go i
        (.busy (.marking after) q)).Fine := h.pushed hi rfl rfl hq hc
      fun roles hat hr => by
        simp only [Thread.join, if_true] at hr ⊢
        exact hr.offer
    rwa [hsame] at hpushed
  | marking after =>
    have hd := hold.deleting (by grind)
    obtain rfl := Option.some.inj hx
    refine h.operate hi rfl ?_ hq ?_ fun roles hat hr => ?_
    · cases after <;> trivial
    · intro mq' hmq hne
      obtain rfl := Option.some.inj hmq
      exact absurd rfl hne
    · simp only [Thread.join, if_true] at hr
      exact ⟨hd.1, hr.mark q⟩

/-! ## The steps of all threads -/

/-- A queue in the global queue, or with a thread, or with a registered context, has been
launched. -/
theorem Fine.launched_of (h : s.Fine)
    (hq : (s.services q).registered = true ∨ 0 < s.globalmq.entries.count q) : q < s.launched := by
  by_contra hge
  obtain ⟨hreg, -, hcount, -⟩ := h.fresh q (by omega)
  rcases hq with hq | hq
  · exact absurd hq (by simp [hreg])
  · omega

theorem Fine.dispatch {g : GlobalQueue} (h : s.Fine) (hi : s.threads[i]? = some .idle)
    (hpop : s.globalmq.pop = some (q, g)) :
    (({ s with globalmq := g } : Sched α).go i (.busy .popped q)).Fine := by
  obtain ⟨-, hnone⟩ | ⟨q', l, hl, hsome, htaken⟩ := h.ring.pop
  · rw [hnone] at hpop
    cases hpop
  · rw [hsome] at hpop
    obtain ⟨rfl, rfl⟩ : q' = q ∧ s.globalmq.taken = g := by simpa using hpop
    have hentries := htaken.entries
    have hcount : s.globalmq.entries.count q' = l.count q' + 1 := by
      rw [hl, List.count_cons_self]
    have hglobal : (({ s with globalmq := s.globalmq.taken } : Sched α).go i
        (.busy .popped q')).globalmq = s.globalmq.taken := rfl
    refine h.at (v := s.services q') hi trivial (show Thread.At q' (.busy .popped q') from rfl)
      (h.launched_of (.inr (by omega))) h.fault rfl rfl (Function.update_eq_self _ _).symm
      ?_ ?_ ?_ <;> rw [hglobal, hentries]
    · exact htaken
    · intro q hne
      rw [hl, List.count_cons_of_ne hne.symm]
    · intro roles hat hr
      rw [hcount] at hr
      simp only [Thread.join, if_true] at hr ⊢
      exact hr.dispatch

theorem Fine.grab (h : s.Fine) (hi : s.threads[i]? = some .idle)
    (hreg : (s.services q).registered = true) : (s.context_grab i q .holding).Fine := by
  refine h.moved hi trivial rfl (h.launched_of (.inl hreg)) fun roles hat hr => ?_
  simp only [Thread.join, if_true] at hr ⊢
  exact hr.hold hreg

theorem Fine.retire (h : s.Fine) (hi : s.threads[i]? = some .idle)
    (hreg : (s.services q).registered = true) :
    ((s.setService q { s.services q with registered := false }).context_release i q
      .retired).Fine := by
  unfold context_release
  simp only [setService, Function.update_self, Function.update_idem]
  refine h.moved hi trivial ?_ (h.launched_of (.inl hreg)) fun roles hat hr => ?_
  · split <;> trivial
  · exact hr.retire hreg q

theorem Fine.launch (h : s.Fine) (hroom : s.Room) :
    ((({ s with launched := s.launched + 1 } : Sched α).setService s.launched
      ⟨(MessageQueue.create s.launched).globalmq_push, 1, true, false⟩).globalmq_push
        s.launched).Fine := by
  have hring := h.ring.push (q := s.launched) hroom
  have hentries := hring.entries
  have hcount : ∀ q, (s.globalmq.push s.launched).entries.count q =
      s.globalmq.entries.count q + if q = s.launched then 1 else 0 := by
    intro q
    rw [hentries, List.count_append, List.count_singleton]
    by_cases hq : q = s.launched
    · rw [if_pos hq, if_pos (by rw [hq, beq_self_eq_true])]
    · rw [if_neg hq, if_neg (by simpa using Ne.symm hq)]
  refine ⟨h.fault, ?_, fun q hq => ?_, fun q hq => ?_⟩
  · show (s.globalmq.push s.launched).Represents (s.globalmq.push s.launched).entries
    rw [hentries]
    exact hring
  · show Service.Fine (Function.update s.services s.launched _ q)
      ((s.globalmq.push s.launched).entries.count q) (s.roles q)
    rw [hcount]
    change q < s.launched + 1 at hq
    by_cases hne : q = s.launched
    · obtain ⟨-, -, h0, hnone⟩ := h.fresh q (by omega)
      rw [h0, hnone, if_pos hne, hne, Function.update_self]
      exact Service.launched_fine _
    · rw [Function.update_of_ne hne, if_neg hne, Nat.add_zero]
      exact h.services q (by omega)
  · change s.launched + 1 ≤ q at hq
    show (Function.update s.services s.launched _ q).registered = false ∧
      (Function.update s.services s.launched _ q).ref = 0 ∧
      (s.globalmq.push s.launched).entries.count q = 0 ∧ s.roles q = 0
    have hne : q ≠ s.launched := by omega
    rw [Function.update_of_ne hne, hcount, if_neg hne, Nat.add_zero]
    exact h.fresh q (by omega)

/-- What a step must find, for nothing to go wrong. -/
def Careful (s : Sched α) (e : ℕ × Act α) : Prop :=
  match s.threads[e.1]?, e.2 with
  | some (.busy role q), .next => s.Calm q role
  | some (.busy (.dispatching locked) _), .lock _ => locked = false
  | some (.busy .holding _), .push _ => s.Room
  | some .idle, .launch => s.Room
  | _, _ => True

theorem Fine.lock {session : ℤ} (h : s.Fine)
    (hi : s.threads[i]? = some (.busy (.dispatching false) q)) :
    (s.operate i q ((s.services q).mq.lock session) (.busy (.dispatching true) q)).Fine := by
  obtain ⟨rest, hold⟩ := h.service hi
  have hw := hold.worker (by grind)
  refine h.operate hi rfl rfl (h.launched hi) ?_ fun roles hat hr => ?_
  · intro mq' hmq hne
    unfold MessageQueue.lock at hmq
    split at hmq
    · obtain rfl := Option.some.inj hmq
      exact absurd rfl hne
    · cases hmq
  · simp only [Thread.join, if_true] at hr ⊢
    exact ⟨hw.1, hr.lock session⟩

theorem Fine.push {m : Message α} (h : s.Fine) (hi : s.threads[i]? = some (.busy .holding q))
    (hroom : s.Room) :
    (s.operate i q ((s.services q).mq.push m) (.busy .holding q)).Fine := by
  refine h.operate hi rfl rfl (h.launched hi) (fun _ _ _ => hroom) fun roles hat hr => ?_
  simp only [Thread.join, if_true] at hr ⊢
  have href : 0 < (s.services q).ref := by
    have := hr.ref
    grind
  exact ⟨(hr.live href).2.1, hr.push href m⟩

/-- A careful step keeps what is true of all queues. -/
theorem Fine.exec {e : ℕ × Act α} {s' : Sched α} (h : s.Fine) (hc : s.Careful e)
    (hx : s.exec e = some s') : s'.Fine := by
  obtain ⟨i, a⟩ := e
  unfold Careful at hc
  cases hi : s.threads[i]? with
  | none => simp [Sched.exec, hi] at hx
  | some t =>
    cases t with
    | idle =>
      cases a with
      | dispatch =>
        simp only [Sched.exec, hi] at hx
        split at hx <;> obtain rfl := Option.some.inj hx
        · exact h
        · rename_i hpop
          exact h.dispatch hi hpop
      | grab q =>
        simp only [Sched.exec, hi] at hx
        split at hx
        · cases hx
        · split at hx <;> obtain rfl := Option.some.inj hx
          · rename_i hreg
            exact h.grab hi hreg
          · exact h
      | retire q =>
        simp only [Sched.exec, hi] at hx
        split at hx
        · cases hx
        · split at hx <;> obtain rfl := Option.some.inj hx
          · rename_i hreg
            exact h.retire hi hreg
          · exact h
      | launch =>
        simp only [hi] at hc
        simp only [Sched.exec, hi] at hx
        split at hx
        · cases hx
        · obtain rfl := Option.some.inj hx
          exact h.launch hc
      | _ => simp [Sched.exec, hi] at hx
    | busy role q =>
      cases a with
      | next =>
        simp only [hi] at hc
        simp only [Sched.exec, hi] at hx
        exact h.next hi hc hx
      | lock session =>
        cases role with
        | dispatching locked =>
          simp only [hi] at hc
          simp only [Sched.exec, hi] at hx
          obtain rfl := Option.some.inj hx
          subst hc
          exact h.lock hi
        | _ => simp [Sched.exec, hi] at hx
      | push m =>
        cases role with
        | holding =>
          simp only [hi] at hc
          simp only [Sched.exec, hi] at hx
          obtain rfl := Option.some.inj hx
          exact h.push hi hc
        | _ => simp [Sched.exec, hi] at hx
      | _ => simp [Sched.exec, hi] at hx

theorem start_roles (n q : ℕ) : (start n : Sched α).roles q = 0 := by
  show (List.replicate n Thread.idle).foldr (Thread.join q) 0 = 0
  induction n with
  | zero => rfl
  | succ n ih => rw [List.replicate_succ, List.foldr_cons, Thread.join, ih]

theorem start_fine (n : ℕ) : (start n : Sched α).Fine := by
  have hentries : (start n : Sched α).globalmq.entries = [] := GlobalQueue.init_represents.entries
  refine ⟨rfl, hentries ▸ GlobalQueue.init_represents, fun q hq => absurd hq (Nat.not_lt_zero q),
    fun q _ => ⟨rfl, rfl, ?_, start_roles n q⟩⟩
  rw [hentries]
  rfl

/-- What is true of all queues is what the scheduling is for. -/
theorem Fine.sound (h : s.Fine) : s.Sound := by
  have hone : ∀ q, s.globalmq.entries.count q + s.count Role.holds q ≤ 1 := by
    intro q
    rw [count_eq]
    by_cases hq : q < s.launched
    · exact (h.services q hq).token_once
    · obtain ⟨-, -, h0, hnone⟩ := h.fresh q (by omega)
      simp [h0, hnone]
  refine ⟨fun q => ?_, fun q => ?_, h.fault, fun q href hl hne => ?_⟩
  · have := hone q
    omega
  · have := hone q
    omega
  · have hq : q < s.launched := by
      by_contra hge
      have := (h.fresh q (by omega)).2.1
      omega
    rw [count_eq, ← List.count_pos_iff]
    have := (h.services q hq).awake href hl hne
    omega

/-- **The scheduling of the services.** While nobody locks a queue twice in a dispatch, no
context is deleted while its queue is `MQ_DISPATCHING`, no worker looks at an unmarked queue
that `skynet_mq_mark_release` has put into the global queue with `in_global` 0, and the
global queue has room, every interleaving of the threads is sound. -/
theorem sound_of_careful (h : ((system (α := α)).restrict Careful).Reachable s) : s.Sound := by
  suffices hfine : s.Fine from hfine.sound
  induction h with
  | init h0 =>
    obtain ⟨n, rfl⟩ := h0
    exact start_fine n
  | step _ hstep ih => exact ih.exec hstep.1 hstep.2.2

/-- A service is launched, gets a message, dispatches it while its session is locked, and
retires when the answer has come; a worker drops its queue. -/
def answeredRun : List (ℕ × Act ℕ) :=
  [(0, .launch), (1, .grab 0), (1, .push ⟨2, 0, 10, 7⟩), (1, .next), (0, .dispatch), (0, .next),
    (0, .next), (0, .lock 5), (0, .next), (0, .next), (1, .grab 0), (1, .push ⟨2, 5, 1, 8⟩),
    (1, .next), (1, .retire 0), (1, .next), (1, .next), (0, .dispatch), (0, .next), (0, .next),
    (0, .next), (0, .next), (0, .next)]

/-- A context is deleted whose queue is empty: a worker gets to the queue before it is marked. -/
def unmarkedRun : List (ℕ × Act ℕ) :=
  [(0, .launch), (0, .dispatch), (0, .next), (0, .next), (2, .retire 0), (0, .next), (0, .next),
    (0, .next), (1, .dispatch), (1, .next), (1, .next)]

/-- A step as long as nothing has gone wrong. -/
def step? (s : Sched α) (e : ℕ × Act α) : Option (Sched α) :=
  if s.fault = none then s.exec e else none

theorem step?_step {e : ℕ × Act α} {s' : Sched α} (h : s.step? e = some s') :
    (system (α := α)).step s e s' := by
  unfold step? at h
  split at h
  · exact ⟨by assumption, h⟩
  · cases h

instance (s : Sched α) : Decidable s.Room := inferInstanceAs (Decidable (_ < _))

instance (s : Sched α) (q : ℕ) : ∀ role, Decidable (s.Calm q role)
  | .orphan => inferInstanceAs (Decidable (_ → _ ∧ (_ → _)))
  | .pushing => inferInstanceAs (Decidable s.Room)
  | .offering _ => inferInstanceAs (Decidable s.Room)
  | .deleting _ => inferInstanceAs (Decidable (_ ≠ _))
  | .popped | .grabbed | .dispatching _ | .leaving | .dropping | .freeing | .holding
  | .marking _ => inferInstanceAs (Decidable True)

instance (s : Sched α) (e : ℕ × Act α) : Decidable (s.Careful e) := by
  unfold Careful
  split <;> infer_instance

/-- The run in which the answer comes is careful, and the queue is freed at its end. -/
theorem sound_of_careful_answered :
    ∃ s : Sched ℕ, (s.services 0).freed = true ∧ s.Sound := by
  obtain ⟨s, hs, hfreed⟩ := TSys.reachable_of_exec (p := fun s => (s.services 0).freed)
    (TSys.restrictExec_step (T := system) (C := Careful) fun s e t (h : s.step? e = some t) =>
      step?_step h) (s := (start 3 : Sched ℕ)) ⟨3, rfl⟩ (l := answeredRun) (by decide)
  exact ⟨s, hfreed, sound_of_careful hs⟩

/-- Not every interleaving is sound: `skynet_mq_mark_release` lets a worker see the queue of a
deleted context before it is marked. -/
theorem unmarked_fails : ¬ ∀ s : Sched ℕ, system.Reachable s → s.Sound := by
  intro hall
  obtain ⟨s, hs, hfault⟩ := TSys.reachable_of_exec (p := fun s => s.fault.isSome)
    (T := system) (fun s e t (h : s.step? e = some t) => step?_step h)
    (s := (start 3 : Sched ℕ)) ⟨3, rfl⟩ (l := unmarkedRun) (by decide)
  rw [(hall s hs).fault] at hfault
  cases hfault

end Sched

end DnServer.Skynet
