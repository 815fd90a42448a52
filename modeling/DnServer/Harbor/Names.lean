import DnServer.Harbor.Master
import DnServer.Harbor.Wire
import DnServer.Lib.Circular

/-!
# Global names in a harbor

`service_harbor.c`: a message to a name that has no handle yet waits in the queue
of the name, and the queue is written to the harbor of the handle when that is
known. A write that fails closes the connection and opens another one, but the
message is not written again; and a handle of the node itself has no connection
at all.

* `pops_in_order`: the ring represents a list (`Represents`), an expansion with the head
  anywhere included.
-/

namespace DnServer.Harbor.Names

open DnServer.Lib DnServer.Lib.Circular

variable {ν μ : Type}

/-! ## The queue of a name -/

/-- `struct msg_queue`. -/
structure MsgQueue (μ : Type) where
  size : ℕ
  head : ℕ
  tail : ℕ
  data : ℕ → Option μ

def DEFAULT_QUEUE_SIZE : ℕ := 1024

namespace MsgQueue

/-- `_new_queue`. -/
def new_queue : MsgQueue μ := ⟨DEFAULT_QUEUE_SIZE, 0, 0, fun _ => none⟩

/-- The buffer of twice the size. -/
def expand (queue : MsgQueue μ) : MsgQueue μ where
  size := queue.size * 2
  head := 0
  tail := queue.size - 1
  data := fun i => if i < queue.size - 1 then queue.data ((i + queue.head) % queue.size) else none

/-- `_push_queue`. -/
def push_queue (queue : MsgQueue μ) (m : μ) : MsgQueue μ :=
  let queue := if (queue.tail + 1) % queue.size = queue.head then queue.expand else queue
  { queue with
    data := Function.update queue.data queue.tail (some m)
    tail := (queue.tail + 1) % queue.size }

/-- `_pop_queue`; the slot that is read may hold no message. -/
def pop_queue (queue : MsgQueue μ) : Option (Option μ × MsgQueue μ) :=
  if queue.head = queue.tail then none
  else some (queue.data queue.head, { queue with head := (queue.head + 1) % queue.size })

/-- The messages that `_release_queue` frees, in at most `n` rounds. -/
def release_queue : ℕ → MsgQueue μ → List μ
  | 0, _ => []
  | n + 1, queue =>
    match queue.pop_queue with
    | none => []
    | some (m, queue) => m.toList ++ release_queue n queue

/-- The slots from the head to the tail hold the messages; one slot stays free. -/
structure Represents (queue : MsgQueue μ) (l : List μ) : Prop where
  holds : Holds queue.size queue.head queue.data l
  tail : queue.tail = place queue.size queue.head l.length
  room : l.length < queue.size

variable {queue : MsgQueue μ} {l : List μ} {m : μ}

theorem new_queue_represents : (new_queue : MsgQueue μ).Represents [] where
  holds := .nil (show 0 < DEFAULT_QUEUE_SIZE by decide)
  tail := rfl
  room := show 0 < DEFAULT_QUEUE_SIZE by decide

/-- The slot behind the tail. -/
theorem Represents.next (h : queue.Represents l) :
    (queue.tail + 1) % queue.size = place queue.size queue.head (l.length + 1) := by
  have hh := h.holds.head_lt
  have hroom := h.room
  rw [h.tail, place_eq_mod hh (by omega), Nat.mod_add_mod, place_eq_mod hh (by omega), add_assoc]

theorem Represents.pop (h : queue.Represents (m :: l)) :
    ∃ queue', queue.pop_queue = some (some m, queue') ∧ queue'.Represents l := by
  have hh := h.holds.head_lt
  have hroom := h.room
  rw [List.length_cons] at hroom
  obtain ⟨hfirst, hrest⟩ := h.holds.pop
  have hne : queue.head ≠ queue.tail := by
    rw [h.tail]
    intro heq
    exact place_ne (by omega) (by omega) (by simp) ((place_zero hh).trans heq)
  have hstep : (queue.head + 1) % queue.size = place queue.size queue.head 1 :=
    (place_eq_mod hh (by omega)).symm
  refine ⟨{ queue with head := (queue.head + 1) % queue.size }, ?_, ?_, ?_, ?_⟩
  · unfold pop_queue
    rw [if_neg hne, hfirst]
  · rw [hstep]
    exact hrest
  · show queue.tail = place queue.size ((queue.head + 1) % queue.size) l.length
    rw [hstep, h.tail, List.length_cons]
    unfold place
    split <;> split <;> split <;> omega
  · show l.length < queue.size
    omega

theorem Represents.pop_nil (h : queue.Represents []) : queue.pop_queue = none :=
  if_pos ((place_zero h.holds.head_lt).symm.trans h.tail.symm)

theorem Represents.push (h : queue.Represents l) : (queue.push_queue m).Represents (l ++ [m]) := by
  have hh := h.holds.head_lt
  have hroom := h.room
  have hnext := h.next
  unfold push_queue
  by_cases hfull : (queue.tail + 1) % queue.size = queue.head
  · -- one slot is left, and the buffer grows first
    have hlen : l.length + 1 = queue.size := by
      by_contra hne
      rw [hnext] at hfull
      exact place_ne (by omega) (by omega) (by simp) (hfull.trans (place_zero hh).symm)
    have hgrown : Holds (2 * queue.size) 0 queue.expand.data l := by
      refine h.holds.grow ?_
      intro i hi
      show (if i < queue.size - 1 then _ else _) = _
      rw [if_pos (by omega), add_comm]
    have hplace : place (2 * queue.size) 0 l.length = queue.size - 1 := by
      unfold place
      split <;> omega
    have hback := hgrown.pushBack (a := m) (by omega)
    rw [hplace, mul_comm] at hback
    rw [if_pos hfull]
    refine ⟨hback, ?_, ?_⟩
    · show (queue.size - 1 + 1) % (queue.size * 2) = place (queue.size * 2) 0 (l ++ [m]).length
      rw [List.length_append, List.length_singleton, hlen, Nat.sub_add_cancel (by omega),
        Nat.mod_eq_of_lt (by omega)]
      unfold place
      split <;> omega
    · show (l ++ [m]).length < queue.size * 2
      rw [List.length_append, List.length_singleton]
      omega
  · have hlen : l.length + 1 ≠ queue.size := by
      intro heq
      apply hfull
      rw [hnext, heq]
      unfold place
      split <;> omega
    have hback := h.holds.pushBack (a := m) hroom
    rw [← h.tail] at hback
    rw [if_neg hfull]
    refine ⟨hback, ?_, ?_⟩
    · show (queue.tail + 1) % queue.size = place queue.size queue.head (l ++ [m]).length
      rw [hnext, List.length_append, List.length_singleton]
    · show (l ++ [m]).length < queue.size
      rw [List.length_append, List.length_singleton]
      omega

theorem Represents.release (h : queue.Represents l) {n : ℕ} (hn : l.length ≤ n) :
    queue.release_queue n = l := by
  induction n generalizing queue l with
  | zero =>
    obtain rfl := List.length_eq_zero_iff.mp (Nat.le_zero.mp hn)
    rfl
  | succ n ih =>
    unfold release_queue
    cases l with
    | nil => rw [h.pop_nil]
    | cons m l =>
      obtain ⟨queue', hpop, hrest⟩ := h.pop
      rw [hpop]
      exact congrArg (m :: ·) (ih hrest (Nat.le_of_succ_le_succ hn))

/-! ### Pushing and popping in any order -/

/-- `struct msg`. -/
structure Msg where
  buffer : List UInt8
  size : ℕ
  deriving DecidableEq, Repr

/-- The slot that `_push_queue` fills. -/
def slot (buffer : List UInt8) (header : RemoteMessageHeader) : Msg :=
  ⟨Harbor.push_queue buffer header, buffer.length + 12⟩

inductive QueueOp
  | push (buffer : List UInt8) (header : RemoteMessageHeader)
  | pop
  deriving DecidableEq, Repr

/-- The calls in order, with the slots that the pops return. -/
def execAll (queue : MsgQueue Msg) : List QueueOp → MsgQueue Msg × List (Option Msg)
  | [] => (queue, [])
  | .push buffer header :: ops => (queue.push_queue (slot buffer header)).execAll ops
  | .pop :: ops =>
    match queue.pop_queue with
    | none => queue.execAll ops
    | some (m, queue) => ((queue.execAll ops).1, m :: (queue.execAll ops).2)

/-- The messages that are pushed, each with its header behind it. -/
def pushed (ops : List QueueOp) : List Msg :=
  ops.filterMap fun
    | .push buffer header => some (slot buffer header)
    | .pop => none

theorem Represents.execAll {queue : MsgQueue Msg} {l : List Msg} (h : queue.Represents l)
    (ops : List QueueOp) : ∃ pending, (queue.execAll ops).1.Represents pending ∧
      (queue.execAll ops).2 ++ pending.map some = (l ++ pushed ops).map some := by
  induction ops generalizing queue l with
  | nil => exact ⟨l, h, by simp [pushed, MsgQueue.execAll]⟩
  | cons op ops ih =>
    cases op with
    | push buffer header =>
      obtain ⟨pending, hrep, heq⟩ := ih (h.push (m := slot buffer header))
      refine ⟨pending, hrep, ?_⟩
      rw [List.append_assoc] at heq
      exact heq
    | pop =>
      rw [MsgQueue.execAll]
      cases l with
      | nil =>
        rw [h.pop_nil]
        exact ih h
      | cons m l =>
        obtain ⟨queue', hpop, hrest⟩ := h.pop
        rw [hpop]
        obtain ⟨pending, hrep, heq⟩ := ih hrest
        exact ⟨pending, hrep, congrArg (some m :: ·) heq⟩

/-- What the next pop gives. -/
theorem Represents.next_pop (h : queue.Represents l) :
    queue.pop_queue.map Prod.fst = l.head?.map some := by
  cases l with
  | nil =>
    rw [h.pop_nil]
    rfl
  | cons m l =>
    obtain ⟨queue', hpop, -⟩ := h.pop
    rw [hpop]
    rfl

/-- **First in, first out.** After any pushes and pops the slots that were returned are the first
of those pushed, in their order; the next pop returns the first of the others, and `NULL` just
when all have been returned; the others are what `_release_queue` frees. -/
theorem pops_in_order (ops : List QueueOp) : ∃ pending : List Msg,
    (execAll new_queue ops).2 ++ pending.map some = (pushed ops).map some ∧
      (execAll new_queue ops).1.pop_queue.map Prod.fst = pending.head?.map some ∧
      ((execAll new_queue ops).1.pop_queue = none ↔
        (execAll new_queue ops).2 = (pushed ops).map some) ∧
      (execAll new_queue ops).1.release_queue pending.length = pending := by
  obtain ⟨pending, hrep, heq⟩ := new_queue_represents.execAll ops
  rw [List.nil_append] at heq
  refine ⟨pending, heq, hrep.next_pop, ?_, hrep.release le_rfl⟩
  have hnext := hrep.next_pop
  rw [← heq, List.self_eq_append_right, List.map_eq_nil_iff, ← Option.map_eq_none_iff (f := Prod.fst),
    hnext, Option.map_eq_none_iff, List.head?_eq_none_iff]

end MsgQueue

/-! ## The harbor -/

/-- `struct keyvalue`; a name that is not in the map is as good as one without value and queue. -/
structure Keyvalue (μ : Type) where
  value : BitVec 32
  queue : Option (MsgQueue μ)

/-- What became of a message to a name. -/
inductive Fate
  /-- Given to `skynet_send`. -/
  | handed
  /-- Written in full; the flag says whether to the connection of the harbor. -/
  | written (live : Bool)
  /-- Not written; the flag says whether it could have been handed over or written. -/
  | dropped (possible : Bool)
  deriving DecidableEq, Repr

namespace Fate

def Right : Fate → Prop
  | .handed => True
  | .written live => live = true
  | .dropped possible => possible = false

end Fate

structure Entry (ν μ : Type) where
  name : ν
  msg : μ
  fate : Fate
  deriving DecidableEq

/-- `struct harbor`, without the connection to the master, and the descriptors that are open in
the process. `sent` and `log` keep a record of what was sent to names and what became of it. -/
structure HarborState (ν μ : Type) where
  id : ℕ
  map : ν → Keyvalue μ
  remote_fd : ℕ → Option ℕ
  remote_addr : ℕ → Option Addr
  kernel : ℕ → Option Peer
  sent : ν → List μ
  log : List (Entry ν μ)

/-- `handle >> HANDLE_REMOTE_SHIFT`. -/
def harborOf (handle : BitVec 32) : ℕ := (handle >>> HANDLE_REMOTE_SHIFT).toNat

namespace HarborState

/-- `harbor_create`, with its own number, in a process with some descriptors of its own. -/
def create (id : ℕ) (kernel : ℕ → Option Peer) : HarborState ν μ where
  id := id
  map := fun _ => ⟨0, none⟩
  remote_fd := fun _ => none
  remote_addr := fun _ => none
  kernel := kernel
  sent := fun _ => []
  log := []

def note (h : HarborState ν μ) (name : ν) (msg : μ) (fate : Fate) : HarborState ν μ :=
  { h with log := h.log ++ [⟨name, msg, fate⟩] }

def close (h : HarborState ν μ) (fd : ℕ) : HarborState ν μ :=
  { h with kernel := Function.update h.kernel fd none }

/-- `h->remote_fd[harbor_id] = _connect_to(...)`; the kernel gives a descriptor that is not open. -/
def connect_to (h : HarborState ν μ) (harbor_id : ℕ) (addr : Addr) (fd : Option ℕ) :
    Option (HarborState ν μ) :=
  match fd with
  | none => some { h with remote_fd := Function.update h.remote_fd harbor_id none }
  | some fd =>
    if ':' ∈ addr ∧ h.kernel fd = none then
      some { h with
        remote_fd := Function.update h.remote_fd harbor_id (some fd)
        kernel := Function.update h.kernel fd (some (.harbor addr)) }
    else none

/-- What follows a write that failed: the descriptor is closed, and the harbor connected again. -/
def reconnect (h : HarborState ν μ) (harbor_id fd : ℕ) (connect : Option ℕ) : Option (HarborState ν μ) :=
  match h.remote_addr harbor_id with
  | none => none
  | some addr => (h.close fd).connect_to harbor_id addr connect

/-- The descriptor is a connection to the harbor's address. -/
def live (h : HarborState ν μ) (harbor_id fd : ℕ) : Bool :=
  match h.remote_addr harbor_id with
  | none => false
  | some addr => h.kernel fd = some (.harbor addr)

/-- The loop of `_dispatch_queue`, with an attempt for each message; `fd` is not read again. -/
def dispatch_loop (name : ν) (harbor_id fd : ℕ) :
    List Attempt → HarborState ν μ → MsgQueue μ → Option (HarborState ν μ × MsgQueue μ)
  | [], h, queue => if queue.pop_queue.isNone then some (h, queue) else none
  | attempt :: attempts, h, queue =>
    match queue.pop_queue with
    | some (some m, queue) =>
      if attempt.err then
        (h.reconnect harbor_id fd attempt.connect).bind fun h =>
          let h := h.note name m (.dropped (h.remote_fd harbor_id).isSome)
          if (h.remote_fd harbor_id).isSome then dispatch_loop name harbor_id fd attempts h queue
          else if attempts.isEmpty then some (h, queue)
          else none
      else if h.kernel fd = none then none
      else
        dispatch_loop name harbor_id fd attempts
          (h.note name m (.written (h.live harbor_id fd))) queue
    | _ => none

/-- `_dispatch_queue`; `none` when its assertion fails. -/
def dispatch_queue (h : HarborState ν μ) (name : ν) (queue : MsgQueue μ) (handle : BitVec 32)
    (attempts : List Attempt) : Option (HarborState ν μ × MsgQueue μ) :=
  if harborOf handle = 0 then none
  else
    match h.remote_fd (harborOf handle) with
    | none => some (h, queue)
    | some fd => dispatch_loop name (harborOf handle) fd attempts h queue

/-- `_release_queue`: what is still in the queue is gone. -/
def release (h : HarborState ν μ) (name : ν) (harbor_id : ℕ) (l : List μ) : HarborState ν μ :=
  let possible := decide (harbor_id = h.id) || (h.remote_fd harbor_id).isSome
  { h with log := h.log ++ l.map fun m => ⟨name, m, .dropped possible⟩ }

variable [DecidableEq ν]

/-- `_update_remote_name`. -/
def update_remote_name (h : HarborState ν μ) (name : ν) (handle : BitVec 32)
    (attempts : List Attempt) : Option (HarborState ν μ) :=
  let queue := (h.map name).queue
  let h := { h with map := Function.update h.map name ⟨handle, none⟩ }
  match queue with
  | none => some h
  | some queue =>
    (h.dispatch_queue name queue handle attempts).map fun r =>
      r.1.release name (harborOf handle) (r.2.release_queue r.2.size)

/-- `_remote_send_handle`, and what becomes of the message. Where there is no connection the
attempt says whether there could be one. -/
def remote_send_handle (h : HarborState ν μ) (destination : BitVec 32) (attempt : Attempt) :
    Option (HarborState ν μ × Fate) :=
  if harborOf destination = 0 then none
  else if harborOf destination = h.id then some (h, .handed)
  else
    match h.remote_fd (harborOf destination) with
    | some fd =>
      if attempt.err then
        (h.reconnect (harborOf destination) fd attempt.connect).map fun h =>
          (h, .dropped (h.remote_fd (harborOf destination)).isSome)
      else if h.kernel fd = none then none
      else some (h, .written (h.live (harborOf destination) fd))
    | none =>
      some (h, .dropped ((h.remote_addr (harborOf destination)).isSome && attempt.connect.isSome))

/-- `_remote_send_name`. -/
def remote_send_name (h : HarborState ν μ) (name : ν) (msg : μ) (attempt : Attempt) :
    Option (HarborState ν μ) :=
  let kv := h.map name
  let h := { h with sent := Function.update h.sent name (h.sent name ++ [msg]) }
  if kv.value = 0 then
    let queue := kv.queue.getD MsgQueue.new_queue
    some { h with
      map := Function.update h.map name { kv with queue := some (queue.push_queue msg) } }
  else (h.remote_send_handle kv.value attempt).map fun r => r.1.note name msg r.2

/-- `_update_remote_address`; `none` when its assertion fails. -/
def update_remote_address (h : HarborState ν μ) (harbor_id : ℕ) (ipaddr : Addr) (connect : Option ℕ) :
    Option (HarborState ν μ) :=
  if harbor_id = h.id then some h
  else if 0 < harbor_id ∧ harbor_id < REMOTE_MAX then
    let h :=
      match h.remote_fd harbor_id with
      | none => h
      | some fd =>
        { h.close fd with remote_addr := Function.update h.remote_addr harbor_id none }
    (h.connect_to harbor_id ipaddr connect).map fun h =>
      if (h.remote_fd harbor_id).isSome then
        { h with remote_addr := Function.update h.remote_addr harbor_id (some ipaddr) }
      else h
  else none

end HarborState

/-- What reaches the harbor, and what other parts of the process do with descriptors. -/
inductive HarborEv (ν μ : Type)
  | send_name (name : ν) (msg : μ) (attempt : Attempt)
  | send_handle (destination : BitVec 32) (attempt : Attempt)
  /-- A name of a local service. -/
  | register_name (name : ν) (handle : BitVec 32) (attempts : List Attempt)
  /-- A name that the master tells. -/
  | update_name (name : ν) (handle : BitVec 32) (attempts : List Attempt)
  | update_address (harbor_id : ℕ) (ipaddr : Addr) (connect : Option ℕ)
  | opened (fd : ℕ)
  | closed (fd : ℕ)

namespace HarborState

variable [DecidableEq ν]

/-- `_mainloop`. -/
def exec (h : HarborState ν μ) : HarborEv ν μ → Option (HarborState ν μ)
  | .send_name name msg attempt => h.remote_send_name name msg attempt
  | .send_handle destination attempt => (h.remote_send_handle destination attempt).map Prod.fst
  | .register_name name handle attempts =>
    if handle = 0 then some h else h.update_remote_name name handle attempts
  | .update_name name handle attempts =>
    if handle.toNat < REMOTE_MAX then none else h.update_remote_name name handle attempts
  | .update_address harbor_id ipaddr connect => h.update_remote_address harbor_id ipaddr connect
  | .opened fd =>
    if h.kernel fd = none then
      some { h with kernel := Function.update h.kernel fd (some .other) }
    else none
  | .closed fd => if h.kernel fd = some .other then some (h.close fd) else none

def system : TSys (HarborState ν μ) (HarborEv ν μ) where
  init h := ∃ id kernel, (∀ fd, kernel fd = none ∨ kernel fd = some .other) ∧ h = create id kernel
  step h e h' := h.exec e = some h'

/-! ## What is promised -/

/-- What became of the messages to a name so far, in order. -/
def processed (h : HarborState ν μ) (name : ν) : List μ :=
  (h.log.filter fun e => e.name = name).map Entry.msg

/-- The messages that wait for the name to get a handle. -/
def Waiting (kv : Keyvalue μ) (l : List μ) : Prop :=
  match kv.queue with
  | none => l = []
  | some queue => queue.Represents l

/-- Each message to a name waits in its place or had its turn once, in order; nothing waits for a
name with a handle; and who had his turn was handed over, unless that was not possible. -/
structure Sound (h : HarborState ν μ) : Prop where
  once : ∀ name, ∃ l, Waiting (h.map name) l ∧ h.processed name ++ l = h.sent name
  resolved : ∀ name, (h.map name).value ≠ 0 → (h.map name).queue = none
  fates : ∀ e ∈ h.log, e.fate.Right

/-- An attempt that does not lose its message while the harbor can be reached. -/
def Keeps (attempt : Attempt) : Prop := attempt.err = false ∨ attempt.connect = none

/-- The name waits for a handle of another node, and no write fails there while the harbor can
be connected again. -/
def CarefulName (h : HarborState ν μ) (name : ν) (handle : BitVec 32) (attempts : List Attempt) : Prop :=
  (h.map name).queue.isSome → harborOf handle ≠ h.id ∧
    ((h.remote_fd (harborOf handle)).isSome → ∀ a ∈ attempts, Keeps a)

/-- A handle of the node or of a harbor whose connection writes, or that cannot be connected. -/
def CarefulSend (h : HarborState ν μ) (destination : BitVec 32) (attempt : Attempt) : Prop :=
  harborOf destination = h.id ∨ attempt.connect = none ∨
    if (h.remote_fd (harborOf destination)).isSome then attempt.err = false
    else h.remote_addr (harborOf destination) = none

def Careful (h : HarborState ν μ) : HarborEv ν μ → Prop
  | .send_name name _ attempt =>
    (h.map name).value ≠ 0 → h.CarefulSend (h.map name).value attempt
  | .register_name name handle attempts => handle ≠ 0 → h.CarefulName name handle attempts
  | .update_name name handle attempts => h.CarefulName name handle attempts
  | _ => True

instance (attempt : Attempt) : Decidable (Keeps attempt) := inferInstanceAs (Decidable (_ ∨ _))

instance (h : HarborState ν μ) (name : ν) (handle : BitVec 32) (attempts : List Attempt) :
    Decidable (h.CarefulName name handle attempts) :=
  inferInstanceAs (Decidable (_ → _ ∧ (_ → ∀ a ∈ attempts, Keeps a)))

instance (h : HarborState ν μ) (destination : BitVec 32) (attempt : Attempt) :
    Decidable (h.CarefulSend destination attempt) :=
  inferInstanceAs (Decidable (_ ∨ _ ∨
    if (h.remote_fd (harborOf destination)).isSome then attempt.err = false
    else h.remote_addr (harborOf destination) = none))

instance (h : HarborState ν μ) : ∀ e : HarborEv ν μ, Decidable (h.Careful e)
  | .send_name name _ attempt =>
    inferInstanceAs (Decidable ((h.map name).value ≠ 0 → h.CarefulSend (h.map name).value attempt))
  | .register_name name handle attempts =>
    inferInstanceAs (Decidable (handle ≠ 0 → h.CarefulName name handle attempts))
  | .update_name name handle attempts =>
    inferInstanceAs (Decidable (h.CarefulName name handle attempts))
  | .send_handle _ _ | .update_address _ _ _ | .opened _ | .closed _ =>
    inferInstanceAs (Decidable True)

end HarborState

end DnServer.Harbor.Names
