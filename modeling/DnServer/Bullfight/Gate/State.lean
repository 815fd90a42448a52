import DnServer.Lib.Table
import DnServer.Lib.Transition
import DnServer.Bullfight.Types

/-!
# Gate and watchdog

The gate (`gate/main.c`) reads the packets of the connections. It hands them to the
watchdog until it knows the session's agent, and to the agent from then on. The
watchdog (`watchdog.lua`) creates the agent when the first packet of a session
arrives, and waits for it meanwhile. Each service has one queue of messages.
-/

namespace DnServer.Bullfight

open DnServer.Lib

namespace Watchdog

variable {α : Type}

abbrev SessionId := ℕ

/-- A connection of the gate: the agent and the client it forwards to. -/
structure Connection where
  agent : Option Address
  client : Option Address
deriving DecidableEq

/-- An entry of `agent_all`; `state` is 1 before the agent is created, 2 meanwhile, 3
after. -/
structure Entry where
  agent : Option Address
  client : Option Address
  fd : ℕ
  addr : String
  state : ℕ
deriving DecidableEq

/-- What the gate tells the watchdog. -/
inductive Report (α : Type)
  | opened (id : SessionId) (fd : ℕ) (addr : String)
  | data (id : SessionId) (data : α)
  | closed (id : SessionId)
deriving DecidableEq

def Report.id : Report α → SessionId
  | .opened id _ _ => id
  | .data id _ => id
  | .closed id => id

/-- What the watchdog tells the gate. -/
structure Forward where
  id : SessionId
  agent : Address
  client : Address
deriving DecidableEq

/-- A `data` handler that waits for `skynet.newservice`. -/
structure Creating (α : Type) where
  id : SessionId
  client : Address
  data : α
deriving DecidableEq

structure State (α : Type) where
  connections : Table SessionId Connection
  /-- The last session id the gate has given out. -/
  id_index : ℕ
  /-- The gate's queue. -/
  forwards : List Forward
  /-- The watchdog's queue. -/
  reports : List (Report α)
  agent_all : Table SessionId Entry
  creating : List (Creating α)
  /-- The packets in the agents' queues, all there ever were. -/
  agents : Table Address (List α)
deriving DecidableEq

/-- Both services as they start. -/
def State.start : State α := ⟨Table.empty, 0, [], [], Table.empty, [], Table.empty⟩

/-! ## The gate -/

/-- A packet enters an agent's queue. -/
def State.deliver (s : State α) (agent : Address) (data : α) : State α :=
  { s with agents := s.agents.modify agent fun l => l ++ [data] }

def State.report (s : State α) (r : Report α) : State α := { s with reports := s.reports ++ [r] }

/-- `_forward`. -/
def forward (s : State α) (id : SessionId) (conn : Connection) (data : α) : State α :=
  match conn.agent with
  | some agent => s.deliver agent data
  | none => s.report (.data id data)

/-- `_forward_agent`. -/
def forwardAgent (s : State α) (f : Forward) : State α :=
  { s with connections := s.connections.modify f.id fun _ => ⟨some f.agent, some f.client⟩ }

/-! ## The watchdog -/

/-- `command:open`, `command:data` and `command:close`, the second up to the creation
of the agent; `client` is the handle of the client it launches. -/
def command (s : State α) (client : Address) : Report α → State α
  | .opened id fd addr => { s with agent_all := s.agent_all.set id ⟨none, none, fd, addr, 1⟩ }
  | .data id data =>
    match s.agent_all.get? id with
    | none => s
    | some entry =>
      if entry.agent = none ∧ entry.state = 1 then
        { s with
          agent_all := s.agent_all.modify id fun e => { e with state := 2 }
          creating := s.creating ++ [⟨id, client, data⟩] }
      else
        match entry.agent with
        | some agent => s.deliver agent data
        | none => s
  | .closed id =>
    if ((s.agent_all.get? id).bind Entry.agent).isSome then s
    else { s with agent_all := s.agent_all.erase id }

/-- `command:data` when the agent is there. -/
def created (s : State α) (c : Creating α) (agent : Address) : State α :=
  let s := { s with agents := s.agents.set agent [] }
  if c.id ∈ s.agent_all then
    State.deliver
      { s with
        agent_all := s.agent_all.modify c.id fun e =>
          { e with state := 3, agent := some agent, client := some c.client }
        forwards := s.forwards ++ [⟨c.id, agent, c.client⟩] }
      agent c.data
  else s

/-! ## Steps -/

inductive Event (α : Type)
  /-- The gate gives a new connection its id. -/
  | connect (id : SessionId) (fd : ℕ) (addr : String)
  /-- The gate reads a packet. -/
  | receive (id : SessionId) (data : α)
  /-- The gate sees that the connection is closed. -/
  | disconnect (id : SessionId)
  /-- The gate handles its next message. -/
  | forward
  /-- The watchdog handles its next message. -/
  | serve (client : Address)
  /-- The creation number `i` returns. -/
  | created (i : ℕ) (agent : Option Address)
deriving DecidableEq

/-- One step; `none` where it cannot be taken. Session ids and handles are new. -/
def exec (s : State α) : Event α → Option (State α)
  | .connect id fd addr =>
    if s.id_index < id then
      some (State.report
        { s with connections := s.connections.set id ⟨none, none⟩, id_index := id }
        (.opened id fd addr))
    else none
  | .receive id data => (s.connections.get? id).map fun conn => forward s id conn data
  | .disconnect id =>
    if id ∈ s.connections then
      some (State.report { s with connections := s.connections.erase id } (.closed id))
    else none
  | .forward =>
    match s.forwards with
    | [] => none
    | f :: rest => some (forwardAgent { s with forwards := rest } f)
  | .serve client =>
    match s.reports with
    | [] => none
    | r :: rest => some (command { s with reports := rest } client r)
  | .created i agent =>
    (s.creating[i]?).bind fun c =>
      let s := { s with creating := s.creating.eraseIdx i }
      match agent with
      | none => some s
      | some agent => if agent ∈ s.agents then none else some (created s c agent)

def system : TSys (State α) (Event α) where
  init s := s = .start
  step s e t := exec s e = some t

theorem exec_step (s : State α) (e : Event α) (t : State α) (h : exec s e = some t) :
    system.step s e t := h

end Watchdog

end DnServer.Bullfight
