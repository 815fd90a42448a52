import DnServer.Lib.Circular
import DnServer.Lib.Handler

/-!
# The message queue of a service

`skynet_mq.c`: messages in a circular buffer that grows when it is full. While
the queue is locked for a session the message of that session goes to the front
and unlocks the queue. The buffer is a deque: what is popped is what a list would
give, whichever end was pushed to and wherever the head stood.

* `queue_refines_deque`: `Represents` gives the list from head to tail around the end of
  the buffer; each operation keeps it, an expansion by copying in order
  (`Represents.expand`).
-/

namespace DnServer.Skynet

open DnServer.Lib
open DnServer.Lib.Circular

/-- `struct skynet_message`; `type` is packed into the high bits of `sz`. -/
structure Message (α : Type) where
  source : ℕ
  session : ℤ
  type : ℕ
  data : α
  deriving DecidableEq, Repr

/-- `in_global`. -/
inductive InGlobal
  /-- 0: not in the global queue. -/
  | out
  /-- 1: in the global queue, or a message is dispatched. -/
  | MQ_IN_GLOBAL
  /-- 2: a message is dispatched and a session is locked. -/
  | MQ_DISPATCHING
  /-- 3: not in the global queue, and a session is locked. -/
  | MQ_LOCKED
  deriving DecidableEq, Repr

/-- `struct message_queue`; `pushed` is how often it was put into the global queue. -/
structure MessageQueue (α : Type) where
  handle : ℕ
  cap : ℕ
  head : ℕ
  tail : ℕ
  release : Bool
  lock_session : ℤ
  in_global : InGlobal
  queue : ℕ → Option (Message α)
  pushed : ℕ

def DEFAULT_QUEUE_SIZE : ℕ := 64

variable {α : Type}

namespace MessageQueue

/-- `skynet_globalmq_push`, as far as the queue itself is concerned. -/
def globalmq_push (q : MessageQueue α) : MessageQueue α := { q with pushed := q.pushed + 1 }

/-- `skynet_mq_create`. What `malloc` leaves in a slot is no message. -/
def create (handle : ℕ) : MessageQueue α where
  handle := handle
  cap := DEFAULT_QUEUE_SIZE
  head := 0
  tail := 0
  release := false
  lock_session := 0
  in_global := .MQ_IN_GLOBAL
  queue := fun _ => none
  pushed := 0

/-- `skynet_mq_pop`; the slot that is read may hold no message. -/
def pop (q : MessageQueue α) : MessageQueue α × Option (Option (Message α)) :=
  if q.head ≠ q.tail then
    ({ q with head := if q.head + 1 ≥ q.cap then 0 else q.head + 1 }, some (q.queue q.head))
  else ({ q with in_global := .out }, none)

def expand_queue (q : MessageQueue α) : MessageQueue α :=
  { q with
    queue := fun i => if i < q.cap then q.queue ((q.head + i) % q.cap) else none
    head := 0
    tail := q.cap
    cap := q.cap * 2 }

/-- The message before the first one. A queue with one free slot left grows first. -/
def putfront (q : MessageQueue α) (message : Message α) : MessageQueue α :=
  let head := if q.head = 0 then q.cap - 1 else q.head - 1
  if head = q.tail then
    let q := q.expand_queue
    let q := { q with tail := q.tail - 1 }
    let head := q.cap - 1
    { q with queue := Function.update q.queue head (some message), head := head }
  else { q with queue := Function.update q.queue head (some message), head := head }

/-- The end of `_pushhead`; `none` when its assertion fails. -/
def unlock (q : MessageQueue α) : Option (MessageQueue α) :=
  match q.in_global with
  | .MQ_LOCKED => some { q.globalmq_push with in_global := .MQ_IN_GLOBAL, lock_session := 0 }
  | .MQ_DISPATCHING => some { q with lock_session := 0 }
  | _ => none

/-- `_pushhead`. -/
def pushhead (q : MessageQueue α) (message : Message α) : Option (MessageQueue α) :=
  (q.putfront message).unlock

/-- The message behind the last one, and more room if that was the last slot. -/
def pushtail (q : MessageQueue α) (message : Message α) : MessageQueue α :=
  let q :=
    { q with
      queue := Function.update q.queue q.tail (some message)
      tail := if q.tail + 1 ≥ q.cap then 0 else q.tail + 1 }
  if q.head = q.tail then q.expand_queue else q

/-- `skynet_mq_push`. -/
def push (q : MessageQueue α) (message : Message α) : Option (MessageQueue α) :=
  if q.lock_session ≠ 0 ∧ message.session = q.lock_session then q.pushhead message
  else
    let q := q.pushtail message
    if q.lock_session = 0 ∧ q.in_global = .out then
      some { q.globalmq_push with in_global := .MQ_IN_GLOBAL }
    else some q

/-- `skynet_mq_lock`. -/
def lock (q : MessageQueue α) (session : ℤ) : Option (MessageQueue α) :=
  if q.lock_session = 0 ∧ q.in_global = .MQ_IN_GLOBAL then
    some { q with in_global := .MQ_DISPATCHING, lock_session := session }
  else none

/-- `skynet_mq_pushglobal`. -/
def pushglobal (q : MessageQueue α) : Option (MessageQueue α) :=
  if q.in_global = .out then none
  else
    let q := if q.in_global = .MQ_DISPATCHING then { q with in_global := .MQ_LOCKED } else q
    some (if q.lock_session = 0 then { q.globalmq_push with in_global := .MQ_IN_GLOBAL } else q)

end MessageQueue

/-! ## The queue as a deque -/

/-- What is done to a queue. -/
inductive QueueOp (α : Type)
  | push (message : Message α)
  | pop
  | lock (session : ℤ)
  | pushglobal

namespace MessageQueue

/-- One operation, and what `skynet_mq_pop` gives. -/
def exec (q : MessageQueue α) : QueueOp α → Option (MessageQueue α × Option (Option (Message α)))
  | .push m => (q.push m).map fun q => (q, none)
  | .pop => some q.pop
  | .lock s => (q.lock s).map fun q => (q, none)
  | .pushglobal => q.pushglobal.map fun q => (q, none)

/-- The operations in order, with what the pops give; `none` when an assertion fails. -/
def execAll (q : MessageQueue α) :
    List (QueueOp α) → Option (MessageQueue α × List (Option (Message α)))
  | [] => some (q, [])
  | op :: ops =>
    (q.exec op).bind fun r => (r.1.execAll ops).map fun s => (s.1, r.2.toList ++ s.2)

end MessageQueue

/-- A list from which messages are taken at the front, and the session it is locked for. -/
structure Deque (α : Type) where
  messages : List (Message α)
  lock_session : ℤ

namespace Deque

/-- A message of the locked session goes to the front and unlocks, any other to the end. -/
def push (d : Deque α) (m : Message α) : Deque α :=
  if d.lock_session ≠ 0 ∧ m.session = d.lock_session then ⟨m :: d.messages, 0⟩
  else { d with messages := d.messages ++ [m] }

def exec (d : Deque α) : QueueOp α → Deque α × Option (Message α)
  | .push m => (d.push m, none)
  | .pop => ({ d with messages := d.messages.tail }, d.messages.head?)
  | .lock s => ({ d with lock_session := s }, none)
  | .pushglobal => (d, none)

def execAll (d : Deque α) : List (QueueOp α) → Deque α × List (Message α)
  | [] => (d, [])
  | op :: ops => (((d.exec op).1.execAll ops).1, (d.exec op).2.toList ++ ((d.exec op).1.execAll ops).2)

end Deque

namespace MessageQueue

/-- The slots from the head to the tail hold the messages of the deque; one slot stays free. -/
structure Represents (q : MessageQueue α) (d : Deque α) : Prop where
  holds : Holds q.cap q.head q.queue d.messages
  tail : q.tail = place q.cap q.head d.messages.length
  room : d.messages.length < q.cap
  lock_session : q.lock_session = d.lock_session

variable {q q' : MessageQueue α} {d : Deque α} {m : Message α}

theorem create_represents (handle : ℕ) : (create handle : MessageQueue α).Represents ⟨[], 0⟩ where
  holds := .nil (show 0 < DEFAULT_QUEUE_SIZE by decide)
  tail := rfl
  room := show 0 < DEFAULT_QUEUE_SIZE by decide
  lock_session := rfl

/-- The queue is empty just when head and tail meet. -/
theorem Represents.empty_iff (h : q.Represents d) : q.head = q.tail ↔ d.messages = [] := by
  have hh := h.holds.head_lt
  have hroom := h.room
  rw [h.tail, ← List.length_eq_zero_iff]
  constructor
  · intro heq
    by_contra hne
    exact place_ne (by omega) hroom (Ne.symm hne) ((place_zero hh).trans heq)
  · intro h0
    rw [h0, place_zero hh]

theorem step_eq_place {n c : ℕ} (hh : n < c) : (if n + 1 ≥ c then 0 else n + 1) = place c n 1 := by
  unfold place
  split <;> split <;> omega

theorem Represents.pop (h : q.Represents d) :
    q.pop.1.Represents (d.exec .pop).1 ∧ q.pop.2 = (d.exec .pop).2.map some := by
  have hh := h.holds.head_lt
  unfold MessageQueue.pop
  cases hm : d.messages with
  | nil =>
    rw [if_neg (not_not.mpr (h.empty_iff.mpr hm))]
    refine ⟨⟨?_, ?_, ?_, h.lock_session⟩, ?_⟩ <;> simp only [Deque.exec, hm, List.tail_nil]
    · exact .nil hh
    · show q.tail = place q.cap q.head 0
      rw [place_zero hh]
      exact (h.empty_iff.mpr hm).symm
    · exact Nat.zero_lt_of_lt hh
    · rfl
  | cons a l =>
    have hne : q.head ≠ q.tail := by
      rw [ne_eq, h.empty_iff, hm]
      exact List.cons_ne_nil _ _
    have hholds := h.holds
    have htail := h.tail
    have hroom := h.room
    rw [hm] at hholds htail hroom
    rw [List.length_cons] at htail hroom
    obtain ⟨hfirst, hrest⟩ := hholds.pop
    rw [if_pos hne]
    refine ⟨⟨?_, ?_, ?_, h.lock_session⟩, ?_⟩ <;> simp only [Deque.exec, hm, List.tail_cons]
    · rw [step_eq_place hh]
      exact hrest
    · rw [step_eq_place hh, htail]
      unfold place
      split <;> split <;> split <;> omega
    · omega
    · rw [hfirst]
      rfl

/-- The buffer grown: the messages lie from slot 0 on. -/
theorem Represents.expand (h : Holds q.cap q.head q.queue d.messages) :
    Holds q.expand_queue.cap 0 q.expand_queue.queue d.messages := by
  have hgrow := h.grow fun i hi =>
    (if_pos (hi.trans_le h.length_le) : q.expand_queue.queue i = _)
  rw [Nat.mul_comm] at hgrow
  exact hgrow

theorem place_first {n c : ℕ} (hn : n < c) : place c 0 n = n := by
  unfold place
  rw [if_pos (by omega)]
  omega

theorem Represents.pushtail (h : q.Represents d) :
    (q.pushtail m).Represents { d with messages := d.messages ++ [m] } := by
  have hh := h.holds.head_lt
  have hroom := h.room
  have htail := h.tail
  have hback := h.holds.pushBack (a := m) hroom
  rw [← htail] at hback
  have hstep : (if q.tail + 1 ≥ q.cap then 0 else q.tail + 1) =
      place q.cap q.head (d.messages.length + 1) := by
    rw [htail, step_eq_place (place_lt hh (by omega))]
    unfold place
    split <;> split <;> split <;> omega
  unfold MessageQueue.pushtail
  rw [hstep]
  generalize hq : ({ q with
      queue := Function.update q.queue q.tail (some m)
      tail := place q.cap q.head (d.messages.length + 1) } : MessageQueue α) = q₁
  have hcap : q₁.cap = q.cap := by rw [← hq]
  have hhead : q₁.head = q.head := by rw [← hq]
  have htail₁ : q₁.tail = place q.cap q.head (d.messages.length + 1) := by rw [← hq]
  have hlock : q₁.lock_session = q.lock_session := by rw [← hq]
  have hholds : Holds q₁.cap q₁.head q₁.queue (d.messages ++ [m]) := by
    rw [← hq]
    exact hback
  by_cases hfull : q₁.head = q₁.tail
  · -- the last slot is taken, and the buffer grows
    have hlen : d.messages.length + 1 = q.cap := by
      by_contra hne
      rw [hhead, htail₁] at hfull
      have : place q.cap q.head 0 ≠ place q.cap q.head (d.messages.length + 1) :=
        place_ne (by omega) (by omega) (by omega)
      rw [place_zero hh] at this
      exact this hfull
    have hgrown := Represents.expand (d := ⟨_, 0⟩) hholds
    rw [if_pos hfull]
    refine ⟨hgrown, ?_, ?_, hlock.trans h.lock_session⟩
    · show q₁.cap = place (q₁.cap * 2) 0 (d.messages ++ [m]).length
      rw [List.length_append, List.length_singleton, hlen, place_first (by omega), hcap]
    · show (d.messages ++ [m]).length < q₁.cap * 2
      rw [List.length_append, List.length_singleton]
      omega
  · rw [if_neg hfull]
    refine ⟨hholds, ?_, ?_, hlock.trans h.lock_session⟩
    · rw [htail₁, hcap, hhead, List.length_append, List.length_singleton]
    · rw [List.length_append, List.length_singleton, hcap]
      by_contra hge
      have hlen : d.messages.length + 1 = q.cap := by omega
      apply hfull
      rw [hhead, htail₁, hlen]
      unfold place
      rw [if_neg (by omega)]
      omega

theorem Represents.putfront (h : q.Represents d) :
    (q.putfront m).Represents { d with messages := m :: d.messages } := by
  have hh := h.holds.head_lt
  have hroom := h.room
  have hprev : (if q.head = 0 then q.cap - 1 else q.head - 1) = place q.cap q.head (q.cap - 1) := by
    unfold place
    split <;> split <;> omega
  have hlast : place q.cap q.head (q.cap - 1) = q.tail ↔ d.messages.length = q.cap - 1 := by
    rw [h.tail]
    constructor
    · intro heq
      by_contra hne
      exact place_ne (by omega) (by omega) (Ne.symm hne) heq
    · intro heq
      rw [heq]
  unfold MessageQueue.putfront
  rw [hprev]
  by_cases hfull : place q.cap q.head (q.cap - 1) = q.tail
  · -- the slot before the first is the free one: the buffer grows first
    have hlen := hlast.mp hfull
    have hfront := (Represents.expand h.holds).pushFront (a := m)
      (show d.messages.length < q.cap * 2 by omega)
    have hplace : place (q.cap * 2) 0 (q.cap * 2 - 1) = q.cap * 2 - 1 := place_first (by omega)
    change Holds (q.cap * 2) (place (q.cap * 2) 0 (q.cap * 2 - 1))
      (Function.update _ (place (q.cap * 2) 0 (q.cap * 2 - 1)) _) _ at hfront
    rw [hplace] at hfront
    rw [if_pos hfull]
    refine ⟨hfront, ?_, ?_, h.lock_session⟩
    · show q.cap - 1 = place (q.cap * 2) (q.cap * 2 - 1) (d.messages.length + 1)
      unfold place
      rw [if_neg (by omega)]
      omega
    · show d.messages.length + 1 < q.cap * 2
      omega
  · have hlen : d.messages.length ≠ q.cap - 1 := fun heq => hfull (hlast.mpr heq)
    rw [if_neg hfull]
    refine ⟨h.holds.pushFront (by omega), ?_, ?_, h.lock_session⟩
    · show q.tail = place q.cap (place q.cap q.head (q.cap - 1)) (d.messages.length + 1)
      rw [h.tail]
      unfold place
      split <;> split <;> split <;> omega
    · show d.messages.length + 1 < q.cap
      omega

theorem Represents.unlock (h : q.Represents d) (hu : q.unlock = some q') :
    q'.Represents ⟨d.messages, 0⟩ := by
  unfold MessageQueue.unlock at hu
  split at hu
  · obtain rfl := Option.some.inj hu
    exact ⟨h.holds, h.tail, h.room, rfl⟩
  · obtain rfl := Option.some.inj hu
    exact ⟨h.holds, h.tail, h.room, rfl⟩
  · exact absurd hu (Option.some_ne_none _).symm

/-- Only the flags of the queue change. -/
theorem Represents.flags {q₂ : MessageQueue α} (h : q.Represents d) (hcap : q₂.cap = q.cap)
    (hhead : q₂.head = q.head) (htail : q₂.tail = q.tail) (hqueue : q₂.queue = q.queue) :
    q₂.Represents ⟨d.messages, q₂.lock_session⟩ where
  holds := by
    rw [hcap, hhead, hqueue]
    exact h.holds
  tail := by
    rw [hcap, hhead, htail]
    exact h.tail
  room := by
    rw [hcap]
    exact h.room
  lock_session := rfl

/-- `skynet_mq_push`, whichever end the message goes to. -/
theorem Represents.push (h : q.Represents d) (hp : q.push m = some q') :
    q'.Represents (d.push m) := by
  unfold MessageQueue.push at hp
  unfold Deque.push
  rw [← h.lock_session]
  by_cases hown : q.lock_session ≠ 0 ∧ m.session = q.lock_session
  · rw [if_pos hown] at hp ⊢
    exact h.putfront.unlock hp
  · rw [if_neg hown] at hp ⊢
    have hback := h.pushtail (m := m)
    simp only at hp
    rw [h.lock_session]
    split at hp <;> obtain rfl := Option.some.inj hp
    · exact ⟨hback.holds, hback.tail, hback.room, hback.lock_session⟩
    · exact hback

/-- One operation does to the deque what it does to the queue. -/
theorem Represents.exec {op : QueueOp α} {out : Option (Option (Message α))} (h : q.Represents d)
    (hx : q.exec op = some (q', out)) :
    q'.Represents (d.exec op).1 ∧ out = (d.exec op).2.map some := by
  cases op with
  | push m =>
    obtain ⟨q₁, hp, heq⟩ := Option.map_eq_some_iff.mp hx
    cases heq
    exact ⟨h.push hp, rfl⟩
  | pop =>
    have hx : q.pop = (q', out) := Option.some.inj hx
    have hpop := h.pop
    rw [hx] at hpop
    exact hpop
  | lock s =>
    obtain ⟨q₁, hp, heq⟩ := Option.map_eq_some_iff.mp hx
    cases heq
    unfold lock at hp
    split at hp
    · obtain rfl := Option.some.inj hp
      exact ⟨h.flags rfl rfl rfl rfl, rfl⟩
    · exact absurd hp (Option.some_ne_none _).symm
  | pushglobal =>
    obtain ⟨q₁, hp, heq⟩ := Option.map_eq_some_iff.mp hx
    cases heq
    refine ⟨?_, rfl⟩
    unfold pushglobal at hp
    split at hp
    · exact absurd hp (Option.some_ne_none _).symm
    · obtain rfl := Option.some.inj hp
      have hsame : ∀ q₂ : MessageQueue α, q₂.lock_session = q.lock_session → q₂.cap = q.cap →
          q₂.head = q.head → q₂.tail = q.tail → q₂.queue = q.queue → q₂.Represents d := by
        intro q₂ h0 h1 h2 h3 h4
        have hflags := h.flags h1 h2 h3 h4
        rw [h0, h.lock_session] at hflags
        exact hflags
      split <;> split <;> exact hsame _ rfl rfl rfl rfl rfl

/-- A run on the queue is the run on the deque. -/
theorem Represents.execAll {ops : List (QueueOp α)} {outs : List (Option (Message α))}
    (h : q.Represents d) (hx : q.execAll ops = some (q', outs)) :
    q'.Represents (d.execAll ops).1 ∧ outs = (d.execAll ops).2.map some := by
  induction ops generalizing q d outs with
  | nil =>
    cases hx
    exact ⟨h, rfl⟩
  | cons op ops ih =>
    obtain ⟨⟨q₁, out⟩, hop, hrest⟩ := Option.bind_eq_some_iff.mp hx
    obtain ⟨⟨q₂, outs₂⟩, hops, heq⟩ := Option.map_eq_some_iff.mp hrest
    cases heq
    obtain ⟨hrep, rfl⟩ := h.exec hop
    obtain ⟨hend, rfl⟩ := ih hrep hops
    refine ⟨hend, ?_⟩
    cases hfirst : (d.exec op).2 <;> simp [Deque.execAll, hfirst]

/-- **The queue is a deque.** Over any run from a new queue the pops give just the
messages that the deque gives, and none from a slot that holds no message. -/
theorem queue_refines_deque (handle : ℕ) {ops : List (QueueOp α)}
    {outs : List (Option (Message α))}
    (hrun : (create handle : MessageQueue α).execAll ops = some (q, outs)) :
    q.Represents (Deque.execAll ⟨[], 0⟩ ops).1 ∧
      outs = (Deque.execAll ⟨[], 0⟩ ops).2.map some :=
  (create_represents handle).execAll hrun

/-- Two messages, a lock, the answer to the locked session, and what is popped then. -/
theorem queue_refines_deque_answer_first :
    (((create 1 : MessageQueue ℕ).execAll
        [.push ⟨2, 0, 10, 7⟩, .push ⟨2, 0, 10, 8⟩, .pop, .lock 5, .pushglobal,
          .push ⟨3, 5, 1, 9⟩, .pop, .pop]).map Prod.snd =
      some [some ⟨2, 0, 10, 7⟩, some ⟨3, 5, 1, 9⟩, some ⟨2, 0, 10, 8⟩]) ∧
    [some ⟨2, 0, 10, 7⟩, some ⟨3, 5, 1, 9⟩, some ⟨2, 0, 10, 8⟩] =
      (Deque.execAll (⟨[], 0⟩ : Deque ℕ)
        [.push ⟨2, 0, 10, 7⟩, .push ⟨2, 0, 10, 8⟩, .pop, .lock 5, .pushglobal,
          .push ⟨3, 5, 1, 9⟩, .pop, .pop]).2.map some :=
  ⟨rfl, (queue_refines_deque 1 rfl).2⟩

/-! ## The flags -/

theorem pushtail_flags : (q.pushtail m).lock_session = q.lock_session ∧
    (q.pushtail m).in_global = q.in_global ∧ (q.pushtail m).pushed = q.pushed := by
  unfold pushtail
  simp only
  generalize (if q.tail + 1 ≥ q.cap then 0 else q.tail + 1) = tail
  split <;> exact ⟨rfl, rfl, rfl⟩

theorem putfront_flags : (q.putfront m).lock_session = q.lock_session ∧
    (q.putfront m).in_global = q.in_global ∧ (q.putfront m).pushed = q.pushed := by
  unfold putfront
  simp only
  generalize (if q.head = 0 then q.cap - 1 else q.head - 1) = head
  split <;> exact ⟨rfl, rfl, rfl⟩

/-- A message that is not the locked session's goes to the end of a queue that is awake. -/
theorem push_behind (hm : ¬(q.lock_session ≠ 0 ∧ m.session = q.lock_session))
    (hq : q.lock_session = 0 → q.in_global ≠ .out) : q.push m = some (q.pushtail m) := by
  obtain ⟨h1, h2, -⟩ := pushtail_flags (q := q) (m := m)
  unfold MessageQueue.push
  rw [if_neg hm]
  simp only
  rw [if_neg (by rw [h1, h2]; exact fun h => hq h.1 h.2)]

theorem unlock_dispatching (hg : q.in_global = .MQ_DISPATCHING) :
    q.unlock = some { q with lock_session := 0 } := by
  cases q
  cases hg
  rfl

theorem unlock_locked (hg : q.in_global = .MQ_LOCKED) :
    q.unlock = some { q.globalmq_push with in_global := .MQ_IN_GLOBAL, lock_session := 0 } := by
  cases q
  cases hg
  rfl

/-- The message of the locked session goes to the front; a queue that waited is woken. -/
theorem push_answer (hs : q.lock_session ≠ 0) (hm : m.session = q.lock_session) :
    (q.in_global = .MQ_DISPATCHING →
      q.push m = some { q.putfront m with lock_session := 0 }) ∧
    (q.in_global = .MQ_LOCKED →
      q.push m = some { (q.putfront m).globalmq_push with
        in_global := .MQ_IN_GLOBAL, lock_session := 0 }) := by
  obtain ⟨-, h2, -⟩ := putfront_flags (q := q) (m := m)
  unfold MessageQueue.push pushhead
  rw [if_pos ⟨hs, hm⟩]
  exact ⟨fun hg => unlock_dispatching (h2.trans hg), fun hg => unlock_locked (h2.trans hg)⟩

end MessageQueue

end DnServer.Skynet
