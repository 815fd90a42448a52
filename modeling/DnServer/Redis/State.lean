import DnServer.Redis.Buffer
import DnServer.Lib.Table
import DnServer.Lib.Handler

/-!
# The Redis client service: values, requests and state

What `redis-cli.lua` keeps: the queue of requests not answered yet, the three
tables of the batch mode, the socket with its buffer and its unsent data, and
the coroutine that splits the reply stream.
-/

namespace DnServer.Redis

open DnServer.Lib

abbrev Address := ℕ
abbrev Session := ℕ

/-! ## Numbers -/

/-- A magnitude as a double holds it: 53 significant bits, rounded to nearest, ties to
even. -/
def doubleNat (n : ℕ) : ℕ :=
  let ulp := 2 ^ (Nat.log2 n - 52)
  let q := n / ulp
  let r := n % ulp
  if 2 * r < ulp ∨ 2 * r = ulp ∧ q % 2 = 0 then q * ulp else (q + 1) * ulp

/-- A Lua 5.2 number is a double. -/
def double (n : ℤ) : ℤ := n.sign * doubleNat n.natAbs

/-- Lua's `tonumber` on a decimal numeral, the only spelling Redis uses for a number. -/
def tonumber : Bytes → Option ℤ
  | [] => none
  | [45] => none
  | 45 :: l => (numeral 0 l).map fun n : ℕ => double (-n)
  | l => (numeral 0 l).map fun n : ℕ => double n

/-! ## Values and requests -/

/-- What a reply is handed on as. -/
inductive Value
  | nil
  | number (n : ℤ)
  | string (s : Bytes)
  | table (bulk : List Bytes)
  deriving DecidableEq, Repr

/-- `batch_mode[address]`: the mode, or the session of the `end` that waits for the last
reply. -/
inductive Mode
  | read
  | write
  | session (n : Session)
  deriving DecidableEq, Repr

structure Request where
  session : Session
  address : Address
  cmd : Bytes
  batch : Option Mode
  deriving DecidableEq, Repr

/-- `batch_reply[address]`: the values collected (`n` of them), or what an error put in
their place. -/
inductive BatchReply
  | table (br : List Value)
  | other (v : Value)
  deriving DecidableEq, Repr

/-- What a `response` carries besides the flag. -/
inductive Packed
  | value (v : Value)
  | table (br : List Value)
  deriving DecidableEq, Repr

/-- A message `skynet.redirect` sends back to a requester. -/
structure Response where
  address : Address
  session : Session
  suc : Bool
  value : Packed
  deriving DecidableEq, Repr

/-! ## The coroutine that splits the stream -/

/-- Where `split_co` is suspended. -/
inductive Point
  /-- `split_package` reads the first line of a reply. -/
  | top
  /-- `redcmd[36]` reads the bytes of a bulk. -/
  | bulk (bytes : ℕ)
  /-- `redcmd[42]` reads the length line of an element, `left` of them still to come. -/
  | line (left : ℕ) (bulk : List Bytes)
  /-- `redcmd[42]` reads the bytes of an element. -/
  | element (left : ℕ) (bulk : List Bytes) (bytes : ℕ)
  /-- It raised: a dead coroutine cannot be resumed. -/
  | dead
  deriving DecidableEq, Repr

/-- What a suspended coroutine waits for. -/
inductive Want
  | line
  | bytes (n : ℕ)
  | nothing
  deriving DecidableEq, Repr

/-! ## The socket and the service -/

/-- The locals of `socket.lua`, and what was written on the open connection. -/
structure Socket where
  fd : Option ℕ
  object : Buffer
  data : List Bytes
  sent : List Bytes

structure Client where
  request_queue : List Request
  batch_mode : Table Address Mode
  batch_count : Table Address ℤ
  batch_reply : Table Address BatchReply
  socket : Socket
  split_co : Point
  /-- The responses sent so far. -/
  out : List Response

/-- Nothing asked, nothing read, not connected. -/
def Client.start : Client where
  request_queue := []
  batch_mode := .empty
  batch_count := .empty
  batch_reply := .empty
  socket := ⟨none, .new, [], []⟩
  split_co := .top
  out := []

end DnServer.Redis
