import DnServer.Lib.Transition
import DnServer.Skynet.GlobalQueue
import DnServer.Skynet.MessageQueue

/-!
# Workers and services

`skynet_context_message_dispatch` run by any number of threads, among others
that push messages to services, launch them and retire them. One step is what a
thread does under one lock or by one atomic operation; between two steps the
others may do anything. A context is deleted by the thread that gives up the
last reference to it, wherever that is.
-/

namespace DnServer.Skynet

open DnServer.Lib

variable {α : Type}

namespace MessageQueue

/-- `skynet_mq_force_push`. -/
def force_push (q : MessageQueue α) : Option (MessageQueue α) :=
  if q.in_global = .out then none else some q.globalmq_push

end MessageQueue

/-- `struct skynet_context` and its queue, as far as they are scheduled. -/
structure Service (α : Type) where
  mq : MessageQueue α
  ref : ℕ
  /-- The handle table has it. -/
  registered : Bool
  /-- `_release` has freed the queue. -/
  freed : Bool

/-- What a thread goes on with after `skynet_context_release`. -/
inductive After
  | done
  /-- `skynet_mq_pushglobal`, at the end of a dispatch. -/
  | pushglobal
  /-- The end of `skynet_handle_retire`, which holds the lock of the handle table. -/
  | retired
  deriving DecidableEq, Repr

/-- Where a thread stands that works on a queue. -/
inductive Role
  /-- The queue comes from the global queue: before `skynet_handle_grab`. -/
  | popped
  /-- It has no context: before `skynet_mq_release`. -/
  | orphan
  /-- Before `skynet_mq_pop`. -/
  | grabbed
  /-- In the callback, which has called `LOCK` or not. -/
  | dispatching (locked : Bool)
  /-- Before `skynet_mq_pushglobal`. -/
  | pushing
  /-- The queue was empty: before `skynet_context_release`. -/
  | leaving
  /-- In `_drop_queue`. -/
  | dropping
  /-- Before `_release`. -/
  | freeing
  /-- The context has been grabbed to push messages. -/
  | holding
  /-- In `_delete_context`, before `skynet_mq_mark_release` looks at `in_global`. -/
  | deleting (after : After)
  /-- Before it puts the queue into the global queue. -/
  | offering (after : After)
  /-- Before it sets `release`. -/
  | marking (after : After)
  deriving DecidableEq, Repr

inductive Thread
  | idle
  | busy (role : Role) (q : ℕ)
  deriving DecidableEq, Repr

def After.next (q : ℕ) : After → Thread
  | .pushglobal => .busy .pushing q
  | .done => .idle
  | .retired => .idle

/-- The thread holds the lock of the handle table for writing. -/
def Thread.writes : Thread → Bool
  | .busy (.deleting .retired) _ => true
  | .busy (.offering .retired) _ => true
  | .busy (.marking .retired) _ => true
  | _ => false

/-- What must not happen. -/
inductive Fault
  /-- An assertion fails. -/
  | assertion
  /-- A queue is used that `_release` has freed. -/
  | freed
  deriving DecidableEq, Repr

structure Sched (α : Type) where
  services : ℕ → Service α
  /-- Services have the numbers below this one. -/
  launched : ℕ
  threads : List Thread
  globalmq : GlobalQueue
  fault : Option Fault

/-- What a thread does: an idle one begins something, any other takes its next step, or,
in a callback or with a context in hand, one of its choice. -/
inductive Act (α : Type)
  | dispatch
  | grab (q : ℕ)
  | retire (q : ℕ)
  | launch
  | next
  | lock (session : ℤ)
  | push (message : Message α)

namespace Sched

/-- `n` threads, and no services. -/
def start (n : ℕ) : Sched α where
  services := fun q => ⟨.create q, 0, false, false⟩
  launched := 0
  threads := List.replicate n .idle
  globalmq := .init
  fault := none

def go (s : Sched α) (i : ℕ) (t : Thread) : Sched α := { s with threads := s.threads.set i t }

def setService (s : Sched α) (q : ℕ) (v : Service α) : Sched α :=
  { s with services := Function.update s.services q v }

def fail (s : Sched α) (f : Fault) : Sched α := { s with fault := some f }

/-- `skynet_globalmq_push`. -/
def globalmq_push (s : Sched α) (q : ℕ) : Sched α := { s with globalmq := s.globalmq.push q }

/-- The lock of the handle table is held for writing. -/
def writing (s : Sched α) : Bool := s.threads.any Thread.writes

/-- The queue after an operation, which may have put it into the global queue. -/
def setMq (s : Sched α) (q : ℕ) (mq : MessageQueue α) : Sched α :=
  let t := s.setService q { s.services q with mq := mq }
  if mq.pushed = (s.services q).mq.pushed then t else t.globalmq_push q

/-- Thread `i` does to the queue what gives `mq`, where no assertion fails. -/
def operate (s : Sched α) (i q : ℕ) (mq : Option (MessageQueue α)) (t : Thread) : Sched α :=
  if (s.services q).freed then s.fail .freed
  else
    match mq with
    | none => s.fail .assertion
    | some mq => (s.setMq q mq).go i t

/-- `skynet_context_release`. -/
def context_release (s : Sched α) (i q : ℕ) (after : After) : Sched α :=
  let v := s.services q
  (s.setService q { v with ref := v.ref - 1 }).go i
    (if v.ref - 1 = 0 then .busy (.deleting after) q else after.next q)

/-- `skynet_context_grab`, on a context that the handle table has. -/
def context_grab (s : Sched α) (i q : ℕ) (role : Role) : Sched α :=
  (s.setService q { s.services q with ref := (s.services q).ref + 1 }).go i (.busy role q)

/-- The next step of a thread that works on queue `q`; `none` while it waits for a lock. -/
def next (s : Sched α) (i q : ℕ) : Role → Option (Sched α)
  | .popped =>
    if s.writing then none
    else if (s.services q).freed then some (s.fail .freed)
    else if (s.services q).registered then some (s.context_grab i q .grabbed)
    else some (s.go i (.busy .orphan q))
  | .orphan =>
    if (s.services q).mq.release ∧ (s.services q).freed = false then
      some (s.go i (.busy .dropping q))
    else some (s.operate i q (s.services q).mq.force_push .idle)
  | .grabbed =>
    some (s.operate i q (some (s.services q).mq.pop.1)
      (if (s.services q).mq.pop.2.isSome then .busy (.dispatching false) q else .busy .leaving q))
  | .dispatching _ => some (s.context_release i q .pushglobal)
  | .pushing => some (s.operate i q (s.services q).mq.pushglobal .idle)
  | .leaving => some (s.context_release i q .done)
  | .dropping =>
    some (s.operate i q (some (s.services q).mq.pop.1)
      (if (s.services q).mq.pop.2.isSome then .busy .dropping q else .busy .freeing q))
  | .freeing =>
    if (s.services q).freed then some (s.fail .freed)
    else some ((s.setService q { s.services q with freed := true }).go i .idle)
  | .holding => some (s.context_release i q .done)
  | .deleting after =>
    if (s.services q).freed then some (s.fail .freed)
    else if (s.services q).mq.release then some (s.fail .assertion)
    else if (s.services q).mq.in_global = .MQ_IN_GLOBAL then
      some (s.go i (.busy (.marking after) q))
    else some (s.go i (.busy (.offering after) q))
  | .offering after => some ((s.globalmq_push q).go i (.busy (.marking after) q))
  | .marking after =>
    some (s.operate i q (some { (s.services q).mq with release := true }) (after.next q))

/-- Thread `i` does `a`. -/
def exec (s : Sched α) (e : ℕ × Act α) : Option (Sched α) :=
  match s.threads[e.1]?, e.2 with
  | some .idle, .dispatch =>
    match s.globalmq.pop with
    | none => some s
    | some (q, globalmq) => some (({ s with globalmq := globalmq }).go e.1 (.busy .popped q))
  | some .idle, .grab q =>
    if s.writing then none
    else if (s.services q).registered then some (s.context_grab e.1 q .holding)
    else some s
  | some .idle, .retire q =>
    if s.writing then none
    else if (s.services q).registered then
      some ((s.setService q { s.services q with registered := false }).context_release e.1 q
        .retired)
    else some s
  | some .idle, .launch =>
    if s.writing then none
    else
      let q := s.launched
      some (({ s with launched := q + 1 }).setService q
        ⟨(MessageQueue.create q).globalmq_push, 1, true, false⟩ |>.globalmq_push q)
  | some (.busy role q), .next => s.next e.1 q role
  | some (.busy (.dispatching _) q), .lock session =>
    some (s.operate e.1 q ((s.services q).mq.lock session) (.busy (.dispatching true) q))
  | some (.busy .holding q), .push m =>
    some (s.operate e.1 q ((s.services q).mq.push m) (.busy .holding q))
  | _, _ => none

/-- Any number of threads, from before the first service on. -/
def system : TSys (Sched α) (ℕ × Act α) where
  init s := ∃ n, s = start n
  step s e t := s.fault = none ∧ s.exec e = some t

/-! ## What the scheduling is for -/

/-- The threads that stand on queue `q` in one of some roles. -/
def count (s : Sched α) (f : Role → Bool) (q : ℕ) : ℕ :=
  s.threads.countP fun t =>
    match t with
    | .idle => false
    | .busy role q' => q' = q && f role

end Sched

/-- A worker has the queue, and will put it back, find it empty or free it. -/
def Role.holds : Role → Bool
  | .popped => true
  | .orphan => true
  | .grabbed => true
  | .dispatching _ => true
  | .pushing => true
  | .dropping => true
  | .freeing => true
  | .deleting after => after = .pushglobal
  | .offering after => after = .pushglobal
  | .marking after => after = .pushglobal
  | _ => false

/-- No queue is twice in the global queue or with two workers; no assertion has failed and
no freed queue been used; and a queue of a live service that has messages and is not locked
is in the global queue or with a worker. -/
structure Sched.Sound (s : Sched α) : Prop where
  once : ∀ q, s.globalmq.entries.count q ≤ 1
  one_worker : ∀ q, s.count Role.holds q ≤ 1
  fault : s.fault = none
  awake : ∀ q, 0 < (s.services q).ref → (s.services q).mq.lock_session = 0 →
    (s.services q).mq.head ≠ (s.services q).mq.tail →
      q ∈ s.globalmq.entries ∨ 0 < s.count Role.holds q

end DnServer.Skynet
