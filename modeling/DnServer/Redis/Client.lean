import DnServer.Redis.State

/-!
# The Redis client service: its code

`redis-cli.lua` and what it uses of `socket.lua`, function by function. A
function that may raise returns the state it leaves in the error. The
coroutine `split_co` is a `Point` at which it is suspended and `resumed`, what
it does from there with the line or the bytes it was given.
-/

namespace DnServer.Redis

open DnServer.Lib
open DnServer.Lib.Handler (index after)

/-- `"\r\n"`. -/
def CRLF : Bytes := [13, 10]

/-- Arguments that are strings; the lines end in CRLF. -/
def compose_message (msg : List Bytes) : Bytes :=
  (42 :: decimal msg.length) ++ CRLF ++
    (msg.map fun v => (36 :: decimal v.length) ++ CRLF ++ v ++ CRLF).flatten

/-! ## socket.lua -/

/-- A Lua argument of `c.write`. -/
inductive Arg
  | nil
  | number (n : ℕ)
  | string (s : Bytes)
  deriving DecidableEq, Repr

def Arg.string? : Arg → Option Bytes
  | .string s => some s
  | _ => none

/-- `_write`: what it hands back when the socket is closed or takes no more. An argument
that is no string has to be light userdata. -/
def c_write (fd : Option ℕ) (args : List Arg) (ok : Bool) : Except String (Option Bytes) :=
  match args with
  | .string str :: _ => .ok (if fd.isSome ∧ ok then none else some str)
  | _ => .error "light userdata expected"

namespace Socket

def close (s : Socket) : Socket := { s with fd := none }

/-- `socket.write`. What the operating system takes is sent on the open connection. -/
def write (s : Socket) (args : List Arg) (ok : Bool) : Except (String × Socket) Socket :=
  match c_write s.fd args ok with
  | .error e => .error (e, s)
  | .ok (some str) => .ok { s.close with data := s.data ++ [str] }
  | .ok none => .ok { s with sent := s.sent ++ args.filterMap Arg.string? }

/-- What the operating system takes is sent. -/
theorem write_taken {s : Socket} (h : s.fd.isSome) (str : Bytes) :
    s.write [.string str] true = .ok { s with sent := s.sent ++ [str] } := by
  simp [write, c_write, h, Arg.string?]

/-- Writing a string never raises. -/
theorem write_string (s : Socket) (str : Bytes) (ok : Bool) :
    ∃ s', s.write [.string str] ok = .ok s' := by
  by_cases h : s.fd.isSome ∧ ok
  · simp [write, c_write, h]
  · simp [write, c_write, h]

/-- It hands `socket.write` the descriptor too. -/
def presend (s : Socket) : Except (String × Socket) Socket :=
  if s.data = [] then .ok s
  else
    s.data.foldlM
      (fun s v => s.write [s.fd.elim .nil .number, .string v] true) { s with data := [] }

/-- `socket.connect`, with what `c.open` returns; `true` when it failed. -/
def connect (s : Socket) (opened : Option ℕ) : Except (String × Socket) (Socket × Bool) :=
  match opened with
  | none => .ok (s.close, true)
  | some fd => do
    let s ← presend { s with fd := some fd, object := .new, sent := [] }
    return (s, false)

end Socket

/-! ## Batches and responses -/

def BatchReply.pack : BatchReply → Packed
  | .table br => .table br
  | .other v => .value v

/-- `type(reply) == "string"`. -/
def BatchReply.isString : BatchReply → Bool
  | .other (.string _) => true
  | _ => false

namespace Client

def batch_close (c : Client) (address : Address) (session : Session) : Client :=
  let reply := c.batch_reply.get? address
  { c with
    out := c.out ++ [⟨address, session, !(reply.any BatchReply.isString),
      (reply.map BatchReply.pack).getD (.value .nil)⟩]
    batch_mode := c.batch_mode.erase address
    batch_count := c.batch_count.erase address
    batch_reply := c.batch_reply.erase address }

def batch_dec (c : Client) (address : Address) : Except (String × Client) Client := do
  let bc ← index c "attempt to perform arithmetic on a nil value" (c.batch_count.get? address)
  let c := { c with batch_count := c.batch_count.set address (bc - 1) }
  if bc = 1 then
    match c.batch_mode.get? address with
    | some (.session session) => return c.batch_close address session
    | _ => return c
  else return c

def response (c : Client) (suc : Bool) (value : Value) : Except (String × Client) Client :=
  match c.request_queue with
  | [] => .error ("assertion failed!", c)
  | reply :: queue =>
    let c := { c with request_queue := queue }
    let address := reply.address
    match reply.batch with
    | some .read =>
      let c :=
        if suc then
          match c.batch_reply.get? address with
          | some (.table br) =>
            { c with batch_reply := c.batch_reply.set address (.table (br ++ [value])) }
          | _ => c
        else { c with batch_reply := c.batch_reply.set address (.other value) }
      c.batch_dec address
    | some .write =>
      let c :=
        if suc then c
        else { c with batch_reply := c.batch_reply.set address (.other value) }
      c.batch_dec address
    | _ =>
      .ok { c with out := c.out ++ [⟨address, reply.session, suc, .value value⟩] }

end Client

/-! ## The coroutine `split_co` -/

/-- The call of `response` a stretch of `split_co` makes, if any, and where it is
suspended next. -/
abbrev Turn := Option (Bool × Value) × Point

/-- The loop of `redcmd[42]` with `left` rounds to go. -/
def nextElement (left : ℕ) (bulk : List Bytes) : Turn :=
  match left with
  | 0 => (some (true, .table bulk), .top)
  | left + 1 => (none, .line (left + 1) bulk)

/-- `redcmd[42]`, up to its first `readline`. -/
def redcmd42 (data : Bytes) : Turn :=
  match tonumber data with
  | none => (none, .dead)
  | some n => if n < 0 then (some (true, .nil), .top) else nextElement n.toNat []

/-- `redcmd[36]`, up to its `readbytes`. -/
def redcmd36 (data : Bytes) : Turn :=
  match tonumber data with
  | none => (none, .dead)
  | some bytes => if bytes < 0 then (some (true, .nil), .top) else (none, .bulk bytes.toNat)

def redcmd43 (data : Bytes) : Turn := (some (true, .string data), .top)

def redcmd45 (data : Bytes) : Turn := (some (false, .string data), .top)

def redcmd58 (data : Bytes) : Turn :=
  (some (true, (tonumber data).elim .nil .number), .top)

/-- `redcmd[firstchar]`; `assert(f)` fails for another first character. -/
def redcmd (firstchar : UInt8) (data : Bytes) : Turn :=
  if firstchar = 42 then redcmd42 data
  else if firstchar = 36 then redcmd36 data
  else if firstchar = 43 then redcmd43 data
  else if firstchar = 45 then redcmd45 data
  else if firstchar = 58 then redcmd58 data
  else (none, .dead)

/-- `string.sub(data, 1, -3)`. -/
def chop (data : Bytes) : Bytes := data.take (data.length - 2)

namespace Point

def wants : Point → Want
  | .top => .line
  | .bulk bytes => .bytes (bytes + 2)
  | .line _ _ => .line
  | .element _ _ bytes => .bytes (bytes + 2)
  | .dead => .nothing

/-- From where the coroutine waited, with what it waited for, to where it waits next. -/
def resumed : Point → Bytes → Turn
  | .top, [] => (none, .dead)
  | .top, firstchar :: data => redcmd firstchar data
  | .bulk _, firstline => (some (true, .string (chop firstline)), .top)
  | .line left got, data =>
    match tonumber (data.drop 1) with
    | none => (none, .dead)
    | some bytes =>
      -- inserting nil inserts nothing
      if bytes < 0 then nextElement (left - 1) got
      else (none, .element left got bytes.toNat)
  | .element left got _, data => nextElement (left - 1) (got ++ [chop data])
  | .dead, _ => (none, .dead)

end Point

/-- `socket.readline` or `socket.read`, as the coroutine asks. -/
def Buffer.fetch (b : Buffer) : Want → Option (Bytes × Buffer)
  | .line => b.readline CRLF
  | .bytes n => b.readBytes n
  | .nothing => none

namespace Client

/-- `response`, if the coroutine called it. -/
def answer (c : Client) : Option (Bool × Value) → Except (String × Client) Client
  | none => .ok c
  | some (suc, value) => c.response suc value

/-- The coroutine runs until it finds too little to read, or raises. Each round reads at
least one byte, so `n` rounds are enough for `n` bytes. -/
def resume : ℕ → Client → Except (String × Client) Client
  | 0, c => .ok c
  | n + 1, c =>
    match c.socket.object.fetch c.split_co.wants with
    | none =>
      if c.split_co = .dead then .error ("cannot resume dead coroutine", c) else .ok c
    | some (data, object) =>
      let turn := c.split_co.resumed data
      let c := { c with socket := { c.socket with object := object } }
      match c.answer turn.1 with
      | .error (e, c) => .error (e, { c with split_co := .dead })
      | .ok c => resume n { c with split_co := turn.2 }

/-- `unpack` of the client protocol with a chunk: it is pushed and `split_co` resumed. -/
def unpack (c : Client) (msg : Bytes) : Except (String × Client) Client :=
  let object := c.socket.object.push msg
  resume (object.unread.length + 1) { c with socket := { c.socket with object := object } }

end Client

/-! ## Dispatch -/

/-- The text messages. -/
inductive BatchOp
  | read
  | write
  | «end»
  | other
  deriving DecidableEq, Repr

namespace Client

/-- The dispatch of text messages. -/
def text (c : Client) (session : Session) (address : Address) (mode : BatchOp) :
    Except (String × Client) Client :=
  let last := c.batch_mode.get? address
  match mode with
  | .end =>
    if last = some .read ∨ last = some .write then
      if c.batch_count.get? address = some 0 then .ok (c.batch_close address session)
      else .ok { c with batch_mode := c.batch_mode.set address (.session session) }
    else .error ("Invalid end", c)
  | .read =>
    if last = none then
      .ok { c with
        batch_reply := c.batch_reply.set address (.table [])
        batch_count := c.batch_count.set address 0
        batch_mode := c.batch_mode.set address .read }
    else .error ("Already in batch mode", c)
  | .write =>
    if last = none then
      .ok { c with
        batch_count := c.batch_count.set address 0
        batch_mode := c.batch_mode.set address .write }
    else .error ("Already in batch mode", c)
  | .other =>
    if last = none then .error ("attempt to concatenate a nil value", c)
    else .error ("Already in batch mode", c)

/-- The dispatch of lua messages; `ok` is whether the operating system takes the
command. -/
def lua (c : Client) (session : Session) (address : Address) (message : List Bytes) (ok : Bool) :
    Except (String × Client) Client := do
  let cmd := compose_message message
  match c.socket.write [.string cmd] ok with
  | .error (e, socket) => .error (e, { c with socket := socket })
  | .ok socket =>
    let c := { c with socket := socket }
    let mode := c.batch_mode.get? address
    let c ←
      if mode = some .read ∨ mode = some .write then do
        let bc ← index c "attempt to perform arithmetic on a nil value" (c.batch_count.get? address)
        pure { c with batch_count := c.batch_count.set address (bc + 1) }
      else pure c
    return { c with request_queue := c.request_queue ++ [⟨session, address, cmd, mode⟩] }

end Client

end DnServer.Redis
