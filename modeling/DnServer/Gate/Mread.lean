import DnServer.Gate.RingBuffer
import DnServer.Gate.Send

/-!
# The read pool

`mread.c`: sockets in the slots of an array, a list of the free ones through
their `fd`, a queue of polled events and the ring that all of them read into. A
frame is pulled from the blocks of the active socket, which are read as they are
needed; when the ring is full the owner of its oldest block loses everything.

What the kernel answers is part of the events and arguments. `none` is a failed
assertion, an access outside the array of sockets, or a loop that does not end.
-/

namespace DnServer.Gate

open DnServer.Lib

def READBLOCKSIZE : ℤ := 2048

/-- How `accept` and the registration of the new socket end. -/
inductive Accepted
  | failed
  | connected (fd : ℕ) (registered : Bool)
  deriving DecidableEq, Repr

/-- An event of the queue, with the answers of the system calls it leads to. -/
inductive PollEvent
  | listen (accepted : Accepted)
  | socket (index : ℕ) (readflag : Bool) (writeflag : Option (List WriteResult))
  deriving DecidableEq, Repr

/-- What `read` can say; it gives at most what is asked for. -/
inductive ReadResult
  | bytes (data : List UInt8)
  | EWOULDBLOCK
  | EINTR
  /-- Any other error. -/
  | failed
  deriving DecidableEq, Repr

/-- `struct mread_pool`; `queue` is what is left of `ev` from `queue_head` on. -/
structure Pool where
  max_connection : ℕ
  closed : ℤ
  active : Option ℕ
  skip : ℤ
  sockets : ℕ → Socket
  free_socket : Option ℕ
  queue : List PollEvent
  rb : Ring

namespace Pool

/-- `_create_sockets`. -/
def create_sockets (max : ℕ) (i : ℕ) : Socket :=
  ⟨if i + 1 = max then -1 else i + 1, none, none, [], false, .INVALID⟩

/-- `_create_rb`. -/
def create_rb (size : ℤ) : Ring :=
  Ring.ringbuffer_new
    (if ALIGN size < READBLOCKSIZE * 2 then READBLOCKSIZE * 2 else ALIGN size).toNat

/-- `mread_create`. -/
def mread_create (max : ℕ) (buffer_size : ℤ) : Pool where
  max_connection := max
  closed := 0
  active := none
  skip := 0
  sockets := create_sockets max
  free_socket := some 0
  queue := []
  rb := create_rb (if buffer_size = 0 then 1024 * 1024 else buffer_size)

/-- The pool with the socket of slot `i` replaced. -/
def set (self : Pool) (i : ℕ) (s : Socket) : Pool :=
  { self with sockets := Function.update self.sockets i s }

/-- The pool after `try_close` on slot `i`. -/
def settle (self : Pool) (i : ℕ) (r : Socket × Bool) : Pool :=
  { self.set i r.1 with closed := if r.2 then self.closed + 1 else self.closed }

/-! ## Slots -/

/-- `_alloc_socket`. -/
def alloc_socket (self : Pool) : Option (Pool × ℕ) :=
  self.free_socket.map fun i =>
    ({ self with
        free_socket :=
          if (self.sockets i).fd < 0 then none else some (self.sockets i).fd.toNat }, i)

/-- `_add_client`; a socket that cannot be registered is closed. -/
def add_client (self : Pool) (fd : ℕ) (registered : Bool) : Pool × Option ℕ :=
  match self.alloc_socket with
  | none => (self, none)
  | some (self, i) =>
    if registered then
      (self.set i { self.sockets i with
        fd := fd, node := none, status := .CONNECTED, enablewrite := false }, some i)
    else (self, none)

/-- `_report_closed`. -/
def report_closed (self : Pool) : Option (Pool × Option ℕ) :=
  ((List.range self.max_connection).find? fun i => (self.sockets i).status = .CLOSED).map
    fun i => ({ self with active := some i }, some i)

/-- The writable event of slot `i`, if that is what the event says. -/
def written (self : Pool) (i : ℕ) : Option (List WriteResult) → Pool
  | some env =>
    self.settle i (((self.sockets i).writable env).1, ((self.sockets i).writable env).2.2)
  | none => self

/-- The loop of `mread_poll`, with `_read_one`. -/
def pollQueue (self : Pool) : List PollEvent → Option (Pool × Option ℕ)
  | [] => some ({ self with queue := [], active := none }, none)
  | .listen .failed :: queue => self.pollQueue queue
  | .listen (.connected fd registered) :: queue =>
    match self.add_client fd registered with
    | (self, some i) => some ({ self with queue := queue, active := none }, some i)
    | (self, none) => self.pollQueue queue
  | .socket i readflag writeflag :: queue =>
    if i < self.max_connection then
      let self := self.written i writeflag
      if readflag ∧ (self.sockets i).status.isOpen then
        some
          (({ self with queue := queue, active := some i }).set i { self.sockets i with
            status := if (self.sockets i).status = SocketStatus.CONNECTED then .FIRST_POLLIN else .POLLIN },
          some i)
      else self.pollQueue queue
    else none

/-- `mread_poll`; `wait` is what `epoll_wait` gives. -/
def mread_poll (self : Pool) (wait : Option (List PollEvent)) : Option (Pool × Option ℕ) :=
  let self := { self with skip := 0 }
  match self.active.filter fun i => (self.sockets i).status = .READ with
  | some i => some (self, some i)
  | none =>
    if self.queue = [] then
      if self.closed > 0 then self.report_closed
      else
        match wait with
        | none => some ({ self with active := none }, none)
        | some queue => self.pollQueue queue
    else self.pollQueue self.queue

/-- `mread_push`, with the bytes that are written. -/
def mread_push (self : Pool) (id : ℕ) (buffer : List UInt8) (env : List WriteResult) :
    Pool × List UInt8 :=
  let r := (self.sockets id).mread_push buffer env
  (self.settle id (r.1, r.2.2), r.2.1)

/-- `mread_close_client`. -/
def mread_close_client (self : Pool) (id : ℕ) : Pool :=
  self.settle id (self.sockets id).mread_close_client

/-- `force_close_client`. -/
def force_close_client (self : Pool) (id : ℤ) : Option Pool :=
  if 0 ≤ id ∧ id < self.max_connection then
    some (self.settle id.toNat (self.sockets id.toNat).force_close_client)
  else none

/-! ## Reading -/

/-- `_link_node`. -/
def link_node (self : Pool) (id blk : ℕ) : Option Pool :=
  match (self.sockets id).node with
  | some node => (self.rb.ringbuffer_link node blk).map fun rb => { self with rb := rb }
  | none =>
    some (({ self with rb := self.rb.setId blk id }).set id
      { self.sockets id with node := some blk })

/-- `_close_active` on slot `id`. -/
def close_active (self : Pool) (id : ℕ) : Option Pool :=
  (self.rb.ringbuffer_free (self.sockets id).temp).bind fun rb =>
    (rb.ringbuffer_free (self.sockets id).node).bind fun rb =>
      ({ self with rb := rb }).force_close_client id

/-- `_ringbuffer_read`. -/
def ringbuffer_read (self : Pool) (id : ℕ) (size : ℤ) : Option (ℤ × Option ℤ) :=
  match (self.sockets id).node with
  | none => some (0, none)
  | some node => self.rb.ringbuffer_data node size self.skip

/-- Allocation for slot `id`: while the ring is full, its oldest owner is closed. Without a
block that owner was `id` itself. -/
def allocate (self : Pool) (id : ℕ) (size : ℤ) : ℕ → Option (Pool × Option ℕ)
  | 0 => none
  | fuel + 1 =>
    (self.rb.ringbuffer_alloc size).bind fun
      | (rb, some blk) => some ({ self with rb := rb }, some blk)
      | (rb, none) =>
        rb.ringbuffer_collect.bind fun r =>
          (({ self with rb := r.1 }).force_close_client r.2).bind fun self =>
            if r.2 = id then some (self, none) else self.allocate id size fuel

/-- `tgw_l7_forward`. -/
def tgw_head : List UInt8 := [116, 103, 119, 95, 108, 55, 95, 102, 111, 114, 119, 97, 114, 100]

/-- The loop of `FindTGWHeader`: past the third line break. -/
def tgwScan (buf : List UInt8) : ℕ → ℕ → ℕ → ℕ
  | 0, _, _ => 0
  | fuel + 1, n, p =>
    let n' := if buf[p]? = some 10 then n + 1 else n
    let p' := if buf[p]? = some 10 then some (p + 1) else (buf.drop p).idxOf? 10 |>.map (p + ·)
    match p' with
    | none => 0
    | some p => if n' < 3 ∧ p < buf.length then tgwScan buf fuel n' p else if n' < 3 then 0 else p

/-- `FindTGWHeader`: the length of the preamble, 0 when there is none. -/
def FindTGWHeader (buf : List UInt8) : ℕ :=
  if buf.length ≤ tgw_head.length ∨
      (buf.take tgw_head.length ≠ tgw_head ∧ buf.take 3 ≠ [117, 103, 119]) then 0
  else tgwScan buf (2 * buf.length) 0 0

/-- The pool with the status of a slot changed. -/
def setStatus (self : Pool) (id : ℕ) (status : SocketStatus) : Pool :=
  self.set id { self.sockets id with status := status }

/-- `skip_all`; at the end of the stream its loop does not end. -/
def skip_all : List ReadResult → Bool
  | .bytes data :: env =>
    if data = [] then false else if 1024 ≤ data.length then skip_all env else true
  | _ => true

/-- The reading loop of `mread_pull`: up to `rd` bytes into `blk`, of which `sz` are needed.
`true` when they are there. -/
def fill (self : Pool) (id blk : ℕ) (sz rd : ℤ) : List ReadResult → Option (Pool × Bool)
  | [] => (self.rb.ringbuffer_shrink blk 0).map fun rb =>
    (({ self with rb := rb }).setStatus id .SUSPEND, false)
  | .EINTR :: env => self.fill id blk sz rd env
  | .EWOULDBLOCK :: _ => (self.rb.ringbuffer_shrink blk 0).map fun rb =>
    (({ self with rb := rb }).setStatus id .SUSPEND, false)
  | .failed :: _ => (self.rb.ringbuffer_shrink blk 0).bind fun rb =>
    (({ self with rb := rb }).close_active id).map fun self => (self, false)
  | .bytes data :: _ =>
    let data := data.take rd.toNat
    let mem := self.rb.mem.putBytes (blk + 16) data
    let httplen := if (self.sockets id).status = .FIRST_POLLIN then FindTGWHeader data else 0
    let rest := data.drop httplen
    let self :=
      { self with
        rb := { self.rb with mem := if httplen = 0 then mem else mem.putBytes (blk + 16) rest } }
    if data = [] then
      (self.rb.ringbuffer_shrink blk 0).bind fun rb =>
        (({ self with rb := rb }).close_active id).map fun self => (self, false)
    else if rest = [] then some (self.setStatus id .SUSPEND, false)
    else
      (self.rb.ringbuffer_shrink blk rest.length).bind fun rb =>
        if rest.length < sz then
          (({ self with rb := rb }).link_node id blk).map fun (self : Pool) =>
            (self.setStatus id .SUSPEND, false)
        else some (({ self with rb := rb }).setStatus id .READ, true)

/-- The end of `mread_pull`: the bytes are there, in one piece or copied into one. -/
def gather (self : Pool) (id : ℕ) (size : ℤ) : Option (Pool × Option ℤ) :=
  (self.ringbuffer_read id size).bind fun
    | (_, some ret) => some ({ self with skip := self.skip + size }, some ret)
    | (real_rd, none) =>
      if real_rd = size then
        (self.allocate id size (self.rb.size + 1)).bind fun
          | (self, none) => some (self, none)
          | (self, some temp) =>
            let rb := self.rb.setId temp id
            (match (self.sockets id).temp with
              | some old => rb.ringbuffer_link temp old
              | none => some rb).bind fun rb =>
                (self.sockets id).node.bind fun node =>
                  (rb.ringbuffer_copy node self.skip temp).map fun rb =>
                    (({ self with rb := rb, skip := self.skip + size }).set id
                      { self.sockets id with temp := some temp }, some (temp + 16))
      else none

/-- The middle of `mread_pull`: up to `rd` bytes are read into a new block, of which `sz` are
needed. -/
def receive (self : Pool) (id : ℕ) (size sz rd : ℤ) (env : List ReadResult) :
    Option (Pool × Option ℤ) :=
  (self.allocate id rd (self.rb.size + 1)).bind fun
    | (self, none) => some (self, none)
    | (self, some blk) =>
      (self.fill id blk sz rd env).bind fun
        | (self, false) => some (self, none)
        | (self, true) => (self.link_node id blk).bind fun self => self.gather id size

/-- `mread_pull`: where the next `size` bytes of the active socket are, if they are there. -/
def mread_pull (self : Pool) (size : ℤ) (env : List ReadResult) : Option (Pool × Option ℤ) :=
  match self.active with
  | none => some (self, none)
  | some id =>
    (self.ringbuffer_read id size).bind fun
      | (_, some buffer) => some ({ self with skip := self.skip + size }, some buffer)
      | (rd_size, none) =>
        match (self.sockets id).status with
        | .READ => some (self.setStatus id .SUSPEND, none)
        | .CLOSED => some (self, none)
        | .SUSPEND => some (self, none)
        | .HALFCLOSE => if skip_all env then some (self, none) else none
        | .INVALID => none
        | .CONNECTED => none
        | _ =>
          let sz := size - rd_size
          let rd := if READBLOCKSIZE < sz then sz else READBLOCKSIZE
          self.receive id size sz rd env

/-- `mread_yield`. -/
def mread_yield (self : Pool) : Option Pool :=
  match self.active with
  | none => some self
  | some id =>
    (self.rb.ringbuffer_free (self.sockets id).temp).bind fun rb =>
      let self := ({ self with rb := rb }).set id { self.sockets id with temp := none }
      let s := self.sockets id
      if s.status = .CLOSED ∧ s.node = none then
        some ({ self with
          closed := self.closed - 1, free_socket := some id, skip := 0, active := none }.set id
            { s with
              status := .INVALID
              fd := match self.free_socket with | some i => i | none => -1 })
      else
        match s.node with
        | none => some { self with skip := 0, active := none }
        | some node =>
          (self.rb.ringbuffer_yield node self.skip).map fun r =>
            { ({ self with rb := r.1 }).set id { s with node := r.2 } with
              skip := 0
              active := if r.2 = none then none else some id }

/-- `mread_closed`. -/
def mread_closed (self : Pool) : Option (Pool × Bool) :=
  match self.active with
  | none => some (self, false)
  | some id =>
    if (self.sockets id).status = .CLOSED ∧ (self.sockets id).node = none then
      self.mread_yield.map fun self => (self, true)
    else some (self, false)

end Pool

/-- What the gate calls. -/
inductive PoolOp
  | poll (wait : Option (List PollEvent))
  | pull (size : ℤ) (env : List ReadResult)
  | yield
  | closed
  | push (id : ℕ) (buffer : List UInt8) (env : List WriteResult)
  | close_client (id : ℕ)
  deriving DecidableEq, Repr

namespace Pool

/-- One call; connections are named by their slots. -/
def exec (self : Pool) : PoolOp → Option Pool
  | .poll wait => (self.mread_poll wait).map Prod.fst
  | .pull size env => (self.mread_pull size env).map Prod.fst
  | .yield => self.mread_yield
  | .closed => self.mread_closed.map Prod.fst
  | .push id buffer env =>
    if id < self.max_connection then some (self.mread_push id buffer env).1 else none
  | .close_client id => if id < self.max_connection then some (self.mread_close_client id) else none

/-- The pool for `max` connections, with the calls in any order. -/
def system (max : ℕ) (buffer_size : ℤ) : TSys Pool PoolOp where
  init self := 0 < max ∧ self = mread_create max buffer_size
  step self op self' := self.exec op = some self'

end Pool

end DnServer.Gate
