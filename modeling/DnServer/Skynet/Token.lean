import DnServer.Skynet.Dispatch

/-!
# The token of a queue

What is true of one queue between two steps of the threads: its token, which is
in the global queue or with a worker, the references to its context, and how far
the deletion of the context has come. The threads at a queue are counted by what
they do there, and each kind of step has its lemma.
-/

namespace DnServer.Skynet

open DnServer.Lib

variable {α : Type}

namespace Role

/-- The thread holds a reference to the context. -/
@[grind] def refers : Role → Bool
  | .grabbed => true
  | .dispatching _ => true
  | .leaving => true
  | .holding => true
  | _ => false

/-- In `_delete_context`. -/
@[grind] def deletes : Role → Bool
  | .deleting _ => true
  | .offering _ => true
  | .marking _ => true
  | _ => false

@[grind] def offers : Role → Bool
  | .offering _ => true
  | _ => false

@[grind] def marks : Role → Bool
  | .marking _ => true
  | _ => false

/-- A worker that comes to `skynet_mq_pushglobal`, or has given up its reference before. -/
@[grind] def returns : Role → Bool
  | .pushing => true
  | .deleting after => after = .pushglobal
  | .offering after => after = .pushglobal
  | .marking after => after = .pushglobal
  | _ => false

/-- Where a worker can stand that has locked the queue. -/
@[grind] def lockable : Role → Bool
  | .dispatching locked => locked
  | .pushing => true
  | .deleting after => after = .pushglobal
  | _ => false

/-- A worker that has found the queue released. -/
@[grind] def drops : Role → Bool
  | .dropping => true
  | .freeing => true
  | _ => false

/-- How many of the threads have a role of some kind. -/
def tally (f : Role → Bool) (roles : Multiset Role) : ℕ := roles.countP fun r => f r = true

@[simp] theorem tally_zero (f : Role → Bool) : tally f 0 = 0 := Multiset.countP_zero _

@[simp, grind =] theorem tally_cons (f : Role → Bool) (r : Role) (roles : Multiset Role) :
    tally f (r ::ₘ roles) = tally f roles + (f r).toNat := by
  rw [tally, Multiset.countP_cons, ← tally]
  cases f r <;> rfl

/-- More roles, more threads. -/
theorem tally_mono {f g : Role → Bool} (h : ∀ r, f r = true → g r = true) (roles : Multiset Role) :
    tally f roles ≤ tally g roles := by
  induction roles using Multiset.induction_on with
  | empty => simp
  | cons r roles ih =>
    rw [tally_cons, tally_cons]
    have hr := h r
    cases hf : f r <;> cases hg : g r <;> grind -linarith

theorem tally_lockable (roles : Multiset Role) : tally lockable roles ≤ tally holds roles :=
  tally_mono (fun r => by cases r <;> simp [lockable, holds]) roles

theorem tally_returns (roles : Multiset Role) : tally returns roles ≤ tally holds roles :=
  tally_mono (fun r => by cases r <;> simp [returns, holds]) roles

theorem tally_drops (roles : Multiset Role) : tally drops roles ≤ tally holds roles :=
  tally_mono (fun r => by cases r <;> simp [drops, holds]) roles

theorem tally_deletes (roles : Multiset Role) :
    tally offers roles + tally marks roles ≤ tally deletes roles := by
  induction roles using Multiset.induction_on with
  | empty => simp
  | cons r roles ih =>
    simp only [tally_cons]
    cases r <;> simp [offers, marks, deletes] <;> omega

end Role

open Role

attribute [grind] Role.holds

/-! ## What the ends of the queue leave alone -/

namespace MessageQueue

variable (q : MessageQueue α) (m : Message α)

@[simp] theorem globalmq_push_pushed : q.globalmq_push.pushed = q.pushed + 1 := rfl
@[simp] theorem globalmq_push_release : q.globalmq_push.release = q.release := rfl
@[simp] theorem globalmq_push_in_global : q.globalmq_push.in_global = q.in_global := rfl
@[simp] theorem globalmq_push_lock_session : q.globalmq_push.lock_session = q.lock_session := rfl

@[simp] theorem putfront_in_global : (q.putfront m).in_global = q.in_global := by
  unfold putfront expand_queue
  grind -linarith

@[simp] theorem putfront_release : (q.putfront m).release = q.release := by
  unfold putfront expand_queue
  grind -linarith

@[simp] theorem putfront_pushed : (q.putfront m).pushed = q.pushed := by
  unfold putfront expand_queue
  grind -linarith

@[simp] theorem pushtail_in_global : (q.pushtail m).in_global = q.in_global := by
  unfold pushtail expand_queue
  grind -linarith

@[simp] theorem pushtail_release : (q.pushtail m).release = q.release := by
  unfold pushtail expand_queue
  grind -linarith

@[simp] theorem pushtail_lock_session : (q.pushtail m).lock_session = q.lock_session := by
  unfold pushtail expand_queue
  grind -linarith

@[simp] theorem pushtail_pushed : (q.pushtail m).pushed = q.pushed := by
  unfold pushtail expand_queue
  grind -linarith

end MessageQueue

/-- The queue has a token: it is in the global queue or a worker has it. -/
def InGlobal.token : InGlobal → ℕ
  | .out => 0
  | .MQ_IN_GLOBAL => 1
  | .MQ_DISPATCHING => 1
  | .MQ_LOCKED => 0

theorem InGlobal.token_le (g : InGlobal) : g.token ≤ 1 := by cases g <;> decide

theorem InGlobal.token_eq_one (g : InGlobal) (h : g.token = 1) :
    g = .MQ_IN_GLOBAL ∨ g = .MQ_DISPATCHING := by
  cases g <;> simp_all [token]

/-- Among the threads at the queue, this one too, if it stands there. -/
def Thread.join (q : ℕ) (t : Thread) (roles : Multiset Role) : Multiset Role :=
  match t with
  | .idle => roles
  | .busy role q' => if q' = q then role ::ₘ roles else roles

/-- What is true of a service whose queue is `pending` times in the global queue and with
threads in some roles. -/
structure Service.Fine (v : Service α) (pending : ℕ) (roles : Multiset Role) : Prop where
  ref : v.ref = v.registered.toNat + tally refers roles
  deletes : tally deletes roles = if v.ref = 0 ∧ v.mq.release = false then 1 else 0
  released : v.mq.release = true → v.ref = 0
  freed : v.freed = true → v.mq.release = true ∧ pending + tally holds roles = 0
  once : v.freed = false → v.mq.release = true ∨ 0 < tally marks roles →
    pending + tally holds roles = 1
  token : v.mq.release = false → tally marks roles = 0 →
    pending + tally holds roles = v.mq.in_global.token
  offers : 0 < tally offers roles → v.mq.in_global.token = 0
  returns : 0 < tally returns roles → v.mq.in_global.token = 1
  dispatching : v.mq.in_global = .MQ_DISPATCHING →
    0 < tally lockable roles ∧ v.mq.release = false ∧ tally marks roles = 0
  drops : 0 < tally drops roles → v.mq.release = true
  unlocked : v.mq.in_global = .MQ_IN_GLOBAL → v.mq.lock_session = 0
  locked : v.mq.in_global = .MQ_LOCKED → v.mq.lock_session ≠ 0
  empty : v.mq.release = false → v.mq.in_global = .out →
    v.mq.lock_session = 0 ∧ v.mq.head = v.mq.tail

/-- A service that has just been launched. -/
theorem Service.launched_fine (q : ℕ) :
    Service.Fine ⟨(MessageQueue.create q : MessageQueue α).globalmq_push, 1, true, false⟩ (0 + 1)
      0 := by
  constructor <;> simp [MessageQueue.create, MessageQueue.globalmq_push, InGlobal.token]

namespace Service.Fine

variable {v : Service α} {n : ℕ} {roles : Multiset Role} {locked : Bool}

/-- What a worker knows that has the queue. -/
theorem worker (h : v.Fine n roles) (hw : 0 < tally holds roles) :
    v.freed = false ∧ n + tally holds roles = 1 := by
  have hd := tally_deletes roles
  have ht := v.mq.in_global.token_le
  cases h
  grind -linarith

/-- There is one token at most. -/
theorem token_once (h : v.Fine n roles) : n + tally holds roles ≤ 1 := by
  have ht := v.mq.in_global.token_le
  by_cases hf : v.freed = true
  · have := (h.freed hf).2
    omega
  · by_cases hm : v.mq.release = true ∨ 0 < tally marks roles
    · exact (h.once (by simpa using hf) hm).le
    · rw [not_or, Nat.not_lt, Nat.le_zero] at hm
      have := h.token (by simpa using hm.1) hm.2
      omega

/-- What a thread knows that deletes the context. -/
theorem deleting (h : v.Fine n roles) (hd : 0 < tally Role.deletes roles) :
    v.freed = false ∧ v.mq.release = false := by
  cases h
  grind -linarith

/-- The context of a service that is referred to is not deleted. -/
theorem live (h : v.Fine n roles) (hr : 0 < v.ref) :
    v.mq.release = false ∧ v.freed = false ∧ tally Role.deletes roles = 0 := by
  cases h
  grind -linarith

/-- A queue that has messages and is not locked has its token. -/
theorem awake (h : v.Fine n roles) (hr : 0 < v.ref) (hl : v.mq.lock_session = 0)
    (hne : v.mq.head ≠ v.mq.tail) : 0 < n + tally holds roles := by
  have hd := tally_deletes roles
  obtain ⟨hrel, -, hdel⟩ := h.live hr
  have htoken := h.token hrel (by omega)
  cases hg : v.mq.in_global with
  | out => exact absurd (h.empty hrel hg).2 hne
  | MQ_LOCKED => exact absurd hl (h.locked hg)
  | _ =>
    rw [hg] at htoken
    simp only [InGlobal.token] at htoken
    omega

/-- A worker takes the queue out of the global queue. -/
theorem dispatch (h : v.Fine (n + 1) roles) : v.Fine n (.popped ::ₘ roles) := by
  cases h
  constructor <;> grind -linarith

theorem orphan (h : v.Fine n (.popped ::ₘ roles)) : v.Fine n (.orphan ::ₘ roles) := by
  cases h
  constructor <;> grind -linarith

theorem drop (h : v.Fine n (.orphan ::ₘ roles)) (hr : v.mq.release = true) :
    v.Fine n (.dropping ::ₘ roles) := by
  cases h
  constructor <;> grind -linarith

theorem context_grab (h : v.Fine n (.popped ::ₘ roles)) (hr : v.registered = true) :
    Service.Fine { v with ref := v.ref + 1 } n (.grabbed ::ₘ roles) := by
  cases h
  constructor <;> grind -linarith

theorem hold (h : v.Fine n roles) (hr : v.registered = true) :
    Service.Fine { v with ref := v.ref + 1 } n (.holding ::ₘ roles) := by
  cases h
  constructor <;> grind -linarith

/-- A queue that has its token is worked on, or the session it is locked for answers. -/
theorem quiet {mq : MessageQueue α} (h : v.Fine n roles) (hr : mq.release = v.mq.release)
    (hg : mq.in_global = v.mq.in_global) (hout : v.mq.in_global = .out → v.mq.release = true)
    (hl : mq.lock_session = v.mq.lock_session ∨
      v.mq.in_global = .MQ_DISPATCHING ∧ mq.lock_session = 0) :
    Service.Fine { v with mq := mq } n roles := by
  cases h
  constructor <;> grind -linarith

/-- A queue without its token gets it. -/
theorem wake {mq : MessageQueue α} (h : v.Fine n roles) (hlive : 0 < v.ref)
    (hr : mq.release = v.mq.release) (hold : v.mq.in_global.token = 0)
    (hg : mq.in_global = .MQ_IN_GLOBAL) (hl : mq.lock_session = 0) :
    Service.Fine { v with mq := mq } (n + 1) roles := by
  have hlive := h.live hlive
  have hd := tally_deletes roles
  cases h
  constructor <;> grind -linarith [InGlobal.token]

theorem begin_dispatch (h : v.Fine n (.grabbed ::ₘ roles)) :
    v.Fine n (.dispatching false ::ₘ roles) := by
  cases h
  constructor <;> grind -linarith

theorem pop_empty (h : v.Fine n (.grabbed ::ₘ roles)) (he : v.mq.head = v.mq.tail) :
    Service.Fine { v with mq := { v.mq with in_global := .out } } n (.leaving ::ₘ roles) := by
  have hw := h.worker (by grind -linarith)
  have hl := h.live (by cases h; grind -linarith)
  have hd := tally_deletes roles
  have hk := tally_lockable roles
  have ht := tally_returns roles
  have hg : v.mq.in_global = .MQ_IN_GLOBAL := by
    have ht := v.mq.in_global.token_eq_one
    cases h
    grind -linarith
  cases h
  constructor <;> grind -linarith [InGlobal.token]

/-- A worker gives up its reference after a dispatch, and may have to delete the context. -/
theorem dispatched (h : v.Fine n (.dispatching locked ::ₘ roles)) (q : ℕ) :
    Service.Fine { v with ref := v.ref - 1 } n
      ((if v.ref - 1 = 0 then Thread.busy (.deleting .pushglobal) q else .busy .pushing q).join q
        roles) := by
  have hw := h.worker (by grind -linarith)
  have hl := h.live (by cases h; grind -linarith)
  have hd := tally_deletes roles
  have hk := tally_lockable roles
  split <;> simp only [Thread.join, if_true] <;> cases h <;> constructor <;> grind -linarith [InGlobal.token]

/-- A thread that is done with the context gives up its reference. -/
theorem released_by {role : Role} (h : v.Fine n (role ::ₘ roles))
    (hr : role = .leaving ∨ role = .holding) (q : ℕ) :
    Service.Fine { v with ref := v.ref - 1 } n
      ((if v.ref - 1 = 0 then Thread.busy (.deleting .done) q else .idle).join q roles) := by
  have hl := h.live (by cases h; grind -linarith)
  have hd := tally_deletes roles
  split <;> simp only [Thread.join, if_true] <;> cases h <;> constructor <;> grind -linarith [InGlobal.token]

theorem retire (h : v.Fine n roles) (hg : v.registered = true) (q : ℕ) :
    Service.Fine { v with ref := v.ref - 1, registered := false } n
      ((if v.ref - 1 = 0 then Thread.busy (.deleting .retired) q else .idle).join q roles) := by
  have hl := h.live (by cases h; grind -linarith)
  have hd := tally_deletes roles
  split <;> simp only [Thread.join, if_true] <;> cases h <;> constructor <;> grind -linarith [InGlobal.token]

theorem drain (h : v.Fine n (.dropping ::ₘ roles)) :
    Service.Fine { v with mq := { v.mq with in_global := .out } } n (.freeing ::ₘ roles) := by
  have hw := h.worker (by grind -linarith)
  have ht := tally_returns roles
  cases h
  constructor <;> grind -linarith [InGlobal.token]

theorem free (h : v.Fine n (.freeing ::ₘ roles)) :
    Service.Fine { v with freed := true } n roles := by
  have hw := h.worker (by grind -linarith)
  cases h
  constructor <;> grind -linarith [InGlobal.token]

/-- `skynet_mq_mark_release` of a queue that has its token, or not. -/
theorem mark_release {after : After} (h : v.Fine n (.deleting after ::ₘ roles))
    (hg : v.mq.in_global ≠ .MQ_DISPATCHING) :
    v.Fine n ((if v.mq.in_global = .MQ_IN_GLOBAL then .marking after else .offering after) ::ₘ
      roles) := by
  have hd := tally_deletes roles
  have h1 := v.mq.in_global.token_eq_one
  have h2 := v.mq.in_global.token_le
  split <;> cases h <;> constructor <;> grind -linarith [InGlobal.token]

theorem offer {after : After} (h : v.Fine n (.offering after ::ₘ roles)) :
    v.Fine (n + 1) (.marking after ::ₘ roles) := by
  have hd := tally_deletes roles
  cases h
  constructor <;> grind -linarith [InGlobal.token]

end Service.Fine

/-- What an operation on the queue leaves, which may have put it into the global queue. -/
def Service.Keeps (v : Service α) (n : ℕ) (mq : Option (MessageQueue α)) (roles : Multiset Role) :
    Prop :=
  ∃ mq' k, mq = some mq' ∧ mq'.pushed = v.mq.pushed + k ∧ k ≤ 1 ∧
    Service.Fine { v with mq := mq' } (n + k) roles

namespace Service.Fine

variable {v : Service α} {n : ℕ} {roles : Multiset Role}

theorem force_push (h : v.Fine n (.orphan ::ₘ roles)) (hr : v.mq.release = false)
    (hmark : v.mq.in_global = .out → tally marks roles = 0) :
    v.Keeps n v.mq.force_push roles := by
  have hout : v.mq.in_global ≠ .out := by
    cases h
    grind -linarith [InGlobal.token]
  refine ⟨v.mq.globalmq_push, 1, if_neg hout, rfl, le_rfl, ?_⟩
  cases h
  constructor <;> grind -linarith [MessageQueue.globalmq_push]

/-- The end of a dispatch: the queue goes back, unless it is locked. -/
theorem pushglobal (h : v.Fine n (.pushing ::ₘ roles)) : v.Keeps n v.mq.pushglobal roles := by
  have hw := h.worker (by grind -linarith)
  have ht := tally_returns roles
  obtain hg | hg := v.mq.in_global.token_eq_one (h.returns (by grind -linarith))
  · have h0 := h.unlocked hg
    refine ⟨{ v.mq.globalmq_push with in_global := .MQ_IN_GLOBAL }, 1, ?_, rfl, le_rfl, ?_⟩
    · simp [MessageQueue.pushglobal, hg, h0, MessageQueue.globalmq_push]
    · cases h
      constructor <;> grind -linarith [InGlobal.token, MessageQueue.globalmq_push]
  · by_cases h0 : v.mq.lock_session = 0
    · refine ⟨{ v.mq.globalmq_push with in_global := .MQ_IN_GLOBAL }, 1, ?_, rfl, le_rfl, ?_⟩
      · simp [MessageQueue.pushglobal, hg, h0, MessageQueue.globalmq_push]
      · cases h
        constructor <;> grind -linarith [InGlobal.token, MessageQueue.globalmq_push]
    · refine ⟨{ v.mq with in_global := .MQ_LOCKED }, 0, ?_, rfl, by decide, ?_⟩
      · simp [MessageQueue.pushglobal, hg, h0]
      · cases h
        constructor <;> grind -linarith [InGlobal.token]

theorem lock (h : v.Fine n (.dispatching false ::ₘ roles)) (session : ℤ) :
    v.Keeps n (v.mq.lock session) (.dispatching true ::ₘ roles) := by
  have hw := h.worker (by grind -linarith)
  have hl := h.live (by cases h; grind -linarith)
  have hd := tally_deletes roles
  have hk := tally_lockable roles
  have hg : v.mq.in_global = .MQ_IN_GLOBAL := by
    have ht := v.mq.in_global.token_eq_one
    cases h
    grind -linarith
  refine ⟨_, 0, if_pos ⟨h.unlocked hg, hg⟩, rfl, by decide, ?_⟩
  cases h
  constructor <;> grind -linarith [InGlobal.token]

/-- `skynet_mq_pop` by a worker that has a context. -/
theorem pop (h : v.Fine n (.grabbed ::ₘ roles)) (q : ℕ) :
    v.Keeps n (some v.mq.pop.1) ((if v.mq.pop.2.isSome then Thread.busy (.dispatching false) q
      else .busy .leaving q).join q roles) := by
  unfold MessageQueue.pop
  by_cases hne : v.mq.head ≠ v.mq.tail
  · rw [if_pos hne]
    have hin : v.mq.in_global ≠ .out := by
      have hl := h.live (by cases h; grind -linarith)
      exact fun hg => hne (h.empty hl.1 hg).2
    refine ⟨_, 0, rfl, rfl, by decide, ?_⟩
    simp only [Option.isSome_some, if_true, Thread.join]
    exact h.begin_dispatch.quiet rfl rfl (fun hg => absurd hg hin) (.inl rfl)
  · rw [if_neg hne]
    refine ⟨_, 0, rfl, rfl, by decide, ?_⟩
    simp only [Option.isSome_none, Bool.false_eq_true, if_false, if_true, Thread.join]
    exact h.pop_empty (not_not.mp hne)

/-- `skynet_mq_pop` by a worker that drops the queue. -/
theorem drop_pop (h : v.Fine n (.dropping ::ₘ roles)) (q : ℕ) :
    v.Keeps n (some v.mq.pop.1) ((if v.mq.pop.2.isSome then Thread.busy .dropping q
      else .busy .freeing q).join q roles) := by
  unfold MessageQueue.pop
  split
  · refine ⟨_, 0, rfl, rfl, by decide, ?_⟩
    simp only [Option.isSome_some, if_true, Thread.join]
    exact h.quiet rfl rfl (fun _ => h.drops (by grind -linarith)) (.inl rfl)
  · refine ⟨_, 0, rfl, rfl, by decide, ?_⟩
    simp only [Option.isSome_none, Bool.false_eq_true, if_false, if_true, Thread.join]
    exact h.drain

/-- The end of `skynet_mq_mark_release`. -/
theorem mark {after : After} (h : v.Fine n (.marking after ::ₘ roles)) (q : ℕ) :
    v.Keeps n (some { v.mq with release := true }) ((after.next q).join q roles) := by
  have hk := tally_lockable roles
  refine ⟨_, 0, rfl, rfl, by decide, ?_⟩
  cases after <;> simp only [After.next, Thread.join, if_true] <;> cases h <;> constructor <;>
    grind -linarith [InGlobal.token]

/-- A message for a service that is referred to. -/
theorem push (h : v.Fine n roles) (hr : 0 < v.ref) (m : Message α) :
    v.Keeps n (v.mq.push m) roles := by
  have hl := h.live hr
  unfold MessageQueue.push
  by_cases hown : v.mq.lock_session ≠ 0 ∧ m.session = v.mq.lock_session
  · rw [if_pos hown]
    unfold MessageQueue.pushhead MessageQueue.unlock
    rw [MessageQueue.putfront_in_global]
    cases hg : v.mq.in_global with
    | out => exact absurd (h.empty hl.1 hg).1 hown.1
    | MQ_IN_GLOBAL => exact absurd (h.unlocked hg) hown.1
    | MQ_DISPATCHING =>
      exact ⟨_, 0, rfl, by simp, by decide,
        h.quiet (by simp) (by simp [hg]) (by simp [hg]) (.inr ⟨hg, rfl⟩)⟩
    | MQ_LOCKED =>
      exact ⟨_, 1, rfl, by simp, le_rfl,
        h.wake hr (by simp) (by simp [hg, InGlobal.token]) rfl rfl⟩
  · rw [if_neg hown]
    simp only [MessageQueue.pushtail_lock_session, MessageQueue.pushtail_in_global]
    by_cases hout : v.mq.lock_session = 0 ∧ v.mq.in_global = .out
    · rw [if_pos hout]
      exact ⟨_, 1, rfl, by simp, le_rfl,
        h.wake hr (by simp) (by simp [hout.2, InGlobal.token]) rfl (by simp [hout.1])⟩
    · rw [if_neg hout]
      have hin : v.mq.in_global ≠ .out := fun hg => hout ⟨(h.empty hl.1 hg).1, hg⟩
      exact ⟨_, 0, rfl, by simp, by decide,
        h.quiet (by simp) (by simp) (fun hg => absurd hg hin) (.inl (by simp))⟩

end Service.Fine

end DnServer.Skynet
