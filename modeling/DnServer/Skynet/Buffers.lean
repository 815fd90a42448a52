import DnServer.Lib.Transition
import DnServer.Skynet.LockSession

/-!
# The buffers of the messages

`skynet_server.c` with the memory that messages point to. A send copies what it is given, or takes
the buffer over with `PTYPE_TAG_DONTCOPY`; the buffer then goes from queue to callback, which
gives it back to be freed, takes it over or forwards the message. A message to another harbor goes
to the harbor service in the buffer of a `struct remote_message`. A queue is the deque that
`MessageQueue` represents. Messages of `PTYPE_MULTICAST`, whose buffers are shared, are a matter
of `Multicast.Cast`.
-/

namespace DnServer.Skynet

open DnServer.Lib

namespace Buffers

/-! ## Messages -/

def PTYPE_MULTICAST : ℕ := 2

def GLOBALNAME_LENGTH : ℕ := 16

/-- `destination` of a `struct remote_message`. -/
inductive Recipient
  | handle (handle : ℕ)
  | name (name : List Char)
  deriving DecidableEq, Repr

/-- What the `data` of a message points to. -/
inductive Data
  | null
  | buffer (b : ℕ)
  /-- A `struct remote_message` in buffer `b`. -/
  | remote (b : ℕ) (destination : Recipient) (message : Data)
  deriving DecidableEq, Repr

/-- The buffer, and what the message in it points to. -/
def Data.pointers : Data → List ℕ
  | .null => []
  | .buffer b => [b]
  | .remote b _ message => b :: message.pointers

/-- What is not freed with the buffer. -/
def Data.inner : Data → List ℕ
  | .remote _ _ message => message.pointers
  | _ => []

/-- `struct skynet_context`, and the service behind it. -/
structure Service where
  handle : ℕ
  /-- The handle table has it. -/
  registered : Bool
  cb : Bool
  session_id : BitVec 32
  forward : ℕ
  queue : Deque Data
  /-- The message that is dispatched, and whether the service has taken its data over. -/
  msg : Option (Message Data × Bool)
  /-- What the service has allocated or taken over. -/
  kept : List Data

structure Node where
  HARBOR : ℕ
  /-- The service that `REMOTE` points to. -/
  REMOTE : ℕ
  services : List Service
  names : List (List Char × ℕ)
  /-- `malloc` has given the buffers below this one. -/
  next : ℕ
  freed : List ℕ
  /-- What nobody points to any more. -/
  lost : List ℕ

/-- The data of a send: `NULL`, memory of the service, or a buffer with `PTYPE_TAG_DONTCOPY`. -/
inductive Sent
  | null
  | copy
  | dontcopy (data : Data)
  deriving DecidableEq, Repr

/-- What the service leaves to the send. -/
def Sent.given : Sent → Data
  | .dontcopy data => data
  | _ => .null

/-- The arguments of `skynet_send` beside its destination. -/
structure Args where
  source : ℕ
  type : ℕ
  /-- `PTYPE_TAG_ALLOCSESSION`. -/
  allocsession : Bool
  session : ℤ
  data : Sent
  sz : ℕ

namespace Node

/-! ## Memory -/

def modify (n : Node) (q : ℕ) (f : Service → Service) : Node :=
  { n with services := n.services.modify q f }

def malloc (n : Node) : Node × Data := ({ n with next := n.next + 1 }, .buffer n.next)

/-- `free`. -/
def free (n : Node) : Data → Node
  | .null => n
  | .buffer b => { n with freed := b :: n.freed }
  | .remote b _ message =>
    { n with freed := b :: n.freed, lost := message.pointers ++ n.lost }

def lose (n : Node) (data : Data) : Node := { n with lost := data.pointers ++ n.lost }

/-! ## Sending -/

/-- `skynet_harbor_message_isremote`. -/
def isremote (n : Node) (handle : ℕ) : Bool := handle / HANDLE_SIZE * HANDLE_SIZE ≠ n.HARBOR

/-- `skynet_handle_findname`. -/
def findname (n : Node) (name : List Char) : ℕ := (n.names.lookup name).getD 0

/-- `skynet_handle_grab`. -/
def grab (n : Node) (handle : ℕ) : Option ℕ :=
  n.services.findIdx? fun s => s.registered && s.handle == handle

/-- `skynet_context_send`, and the end of `skynet_context_push`. -/
def context_send (n : Node) (q : ℕ) (message : Message Data) : Node :=
  n.modify q fun s => { s with queue := s.queue.push message }

/-- `skynet_context_push`; `none` where there is no such service. -/
def context_push (n : Node) (handle : ℕ) (message : Message Data) : Option Node :=
  (n.grab handle).map fun q => n.context_send q message

/-- A `struct remote_message` for `skynet_harbor_send`; `none` when its assertion fails or
there is no harbor service. -/
def harbor_send (n : Node) (destination : Recipient) (source : ℕ) (session : ℤ) (type : ℕ)
    (data : Data) : Option Node :=
  if type = PTYPE_SYSTEM ∨ type = PTYPE_HARBOR ∨ n.services.length ≤ n.REMOTE then none
  else
    some (context_send { n with next := n.next + 1 } n.REMOTE
      ⟨source, session, type, .remote n.next destination data⟩)

/-- `skynet_context_push`, and `free` where it fails. -/
def push_or_free (n : Node) (handle : ℕ) (message : Message Data) : Node :=
  (n.context_push handle message).getD (n.free message.data)

/-- `_send_message`. -/
def send_message (n : Node) (des : ℕ) (msg : Message Data) : Option Node :=
  if n.isremote des then n.harbor_send (.handle des) msg.source msg.session msg.type msg.data
  else some (n.push_or_free des msg)

/-- The session of `_filter_args`; `none` when its assertion fails. -/
def filter_session (n : Node) (q : ℕ) (a : Args) : Option (Node × ℤ) :=
  if a.allocsession = true then
    if a.session ≠ 0 then none
    else
      n.services[q]?.map fun s =>
        (n.modify q fun s => { s with session_id := s.session_id + 1 },
          ((s.session_id + 1) &&& 0x7fffffff).toInt)
  else some (n, a.session)

/-- The copy that `_filter_args` makes. -/
def filter_data (n : Node) : Sent → Node × Data
  | .null => (n, .null)
  | .copy => n.malloc
  | .dontcopy data => (n, data)

/-- `_filter_args`; `none` when an assertion fails. -/
def filter_args (n : Node) (q : ℕ) (a : Args) : Option (Node × ℤ × Data) :=
  if HANDLE_SIZE ≤ a.sz then none
  else
    (n.filter_session q a).map fun (n, session) =>
      let (n, data) := n.filter_data a.data
      (n, session, data)

/-- `skynet_send` by service `q` after `_filter_args`; `source` is 0 for its own handle. -/
def send_filtered (n : Node) (q destination : ℕ) (a : Args) (session : ℤ) (data : Data) :
    Option Node :=
  let source := if a.source = 0 then (n.services[q]?.map (·.handle)).getD 0 else a.source
  if destination = 0 then some (n.lose data)
  else if n.isremote destination then
    n.harbor_send (.handle destination) source session a.type data
  else some (n.push_or_free destination ⟨source, session, a.type, data⟩)

/-- `skynet_send`. -/
def send (n : Node) (q destination : ℕ) (a : Args) : Option Node :=
  (n.filter_args q a).bind fun (n, session, data) => n.send_filtered q destination a session data

/-- `skynet_sendname`. -/
def sendname (n : Node) (q : ℕ) (addr : List Char) (a : Args) : Option Node :=
  let a := { a with source := 0 }
  match addr with
  | ':' :: name => n.send q (strtoul name) a
  | '.' :: name =>
    let des := n.findname name
    if des = 0 then some (n.free a.data.given) else n.send q des a
  | name =>
    (n.filter_args q a).bind fun (n, session, data) =>
      n.harbor_send (.name (name.take GLOBALNAME_LENGTH)) ((n.services[q]?.map (·.handle)).getD 0)
        session a.type data

/-! ## Dispatching -/

/-- `_forwarding`, and whether it has sent the message on. -/
def forwarding (n : Node) (q forward : ℕ) (msg : Message Data) : Option (Node × Bool) :=
  if forward ≠ 0 then
    ((n.modify q fun s => { s with forward := 0 }).send_message forward msg).map fun n => (n, true)
  else some (n, false)

/-- `_dispatch_message` after the callback. -/
def dispatched (n : Node) (q : ℕ) (s : Service) (msg : Message Data) (reserve : Bool) :
    Option Node :=
  ((n.modify q fun s => { s with msg := none }).forwarding q s.forward msg).map
    fun (n, forwarded) => if (reserve || forwarded) = false then n.free msg.data else n

/-- `skynet_context_message_dispatch` up to the callback. -/
def dispatch (n : Node) (q : ℕ) (s : Service) : Option Node :=
  match s.queue.messages with
  | [] => some n
  | msg :: _ =>
    let n := n.modify q fun s => { s with queue := (s.queue.exec .pop).1 }
    if s.cb = false then some (n.free msg.data)
    else if msg.type = PTYPE_MULTICAST then none
    else some (n.modify q fun s => { s with msg := some (msg, false) })

/-- `_drop_queue`. -/
def drop_queue (n : Node) (q : ℕ) (s : Service) : Node :=
  (s.queue.messages.map (·.data)).foldl free
    (n.modify q fun s => { s with queue := { s.queue with messages := [] } })

end Node

/-! ## The node -/

inductive Event
  /-- `skynet_context_new`. -/
  | launch (handle : ℕ)
  | callback (q : ℕ) (cb : Bool)
  /-- `skynet_handle_retire`. -/
  | retire (q : ℕ)
  | malloc (q : ℕ)
  | free (q : ℕ) (data : Data)
  | send (q destination : ℕ) (a : Args)
  | sendname (q : ℕ) (addr : List Char) (a : Args)
  /-- `skynet_harbor_register`. -/
  | register
  /-- `skynet_error`, which has once looked for the logger and found this handle. -/
  | error (source logger : ℕ)
  /-- `skynet_timeout`, then or later. -/
  | timeout (handle : ℕ) (session : ℤ)
  /-- The command `LOCK`. -/
  | lock (q : ℕ) (session : ℤ)
  | dispatch (q : ℕ)
  /-- The callback takes the data of its message over. -/
  | take (q : ℕ)
  /-- The callback of the harbor service takes over what its message carries. -/
  | unwrap (q : ℕ)
  /-- `skynet_forward`. -/
  | forward (q destination : ℕ)
  /-- The callback returns. -/
  | callback_returns (q : ℕ) (reserve : Bool)
  /-- `skynet_mq_release` for a context that is gone. -/
  | release (q : ℕ)

/-- The service leaves it to others. -/
def Service.give (s : Service) (data : Data) : Service :=
  { s with kept := s.kept.erase data }

namespace Node

def exec (n : Node) : Event → Option Node
  | .launch handle =>
    some { n with
      services := n.services ++ [⟨handle, true, false, 0, 0, ⟨[], 0⟩, none, []⟩] }
  | .callback q cb => some (n.modify q fun s => { s with cb := cb })
  | .retire q => some (n.modify q fun s => { s with registered := false })
  | .malloc q =>
    if q < n.services.length then
      some (n.malloc.1.modify q fun s => { s with kept := n.malloc.2 :: s.kept })
    else none
  | .free q data => some ((n.modify q fun s => s.give data).free data)
  | .send q destination a => (n.modify q fun s => s.give a.data.given).send q destination a
  | .sendname q addr a => (n.modify q fun s => s.give a.data.given).sendname q addr a
  | .register =>
    if n.REMOTE < n.services.length then
      some (n.malloc.1.context_send n.REMOTE ⟨0, 0, PTYPE_SYSTEM, n.malloc.2⟩)
    else none
  | .error source logger =>
    some (n.malloc.1.push_or_free logger ⟨source, 0, 0, n.malloc.2⟩)
  | .timeout handle session =>
    some ((n.context_push handle ⟨0, session, 1, .null⟩).getD n)
  | .lock q session =>
    some (n.modify q fun s => { s with queue := (s.queue.exec (.lock session)).1 })
  | .dispatch q =>
    n.services[q]?.bind fun s =>
      if s.registered = false ∨ s.msg.isSome then none else n.dispatch q s
  | .take q =>
    n.services[q]?.bind fun s =>
      match s.msg with
      | some (msg, false) =>
        some (n.modify q fun s => { s with msg := some (msg, true), kept := msg.data :: s.kept })
      | _ => none
  | .unwrap q =>
    n.services[q]?.bind fun s =>
      match s.msg with
      | some (⟨source, session, type, .remote b destination message⟩, false) =>
        some (n.modify q fun s =>
          { s with
            msg := some (⟨source, session, type, .remote b destination .null⟩, false)
            kept := message :: s.kept })
      | _ => none
  | .forward q destination =>
    n.services[q]?.bind fun s =>
      if s.forward ≠ 0 then none
      else some (n.modify q fun s => { s with forward := destination })
  | .callback_returns q reserve =>
    n.services[q]?.bind fun s => s.msg.bind fun msg => n.dispatched q s msg.1 reserve
  | .release q =>
    n.services[q]?.bind fun s =>
      if s.registered = true ∨ s.msg.isSome ∨
          (s.queue.messages.any fun msg => msg.type = PTYPE_MULTICAST) then none
      else some (n.drop_queue q s)

def system : TSys Node Event where
  init n := n.services = [] ∧ n.next = 0 ∧ n.freed = [] ∧ n.lost = []
  step n e n' := n.exec e = some n'

end Node

end Buffers

end DnServer.Skynet
