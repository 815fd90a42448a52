import Mathlib
import DnServer.Lib.Transition

/-!
# Coroutines of a Lua service

`skynet.lua`: every request, timeout and fork runs in a coroutine of its own. A
coroutine that waits yields to the main state, which keeps it in a table under
the session it waits for and goes on: first with the coroutines that were woken,
then with the forks, then with the next message. Only one coroutine runs at a
time, and the main state alone resumes.
-/

namespace DnServer.Skynet.Lua

open DnServer.Lib

/-- What stands under a session in `session_id_coroutine`. -/
inductive Entry
  | BREAK
  | coroutine (co : ℕ)
  deriving DecidableEq, Repr

/-- The function a coroutine is made for: `p.dispatch`, or what `skynet.timeout` and
`skynet.fork` were given. -/
inductive Func
  | dispatch
  | timeout (session : ℕ)
  | fork
  deriving DecidableEq, Repr

/-- What a coroutine is resumed with. -/
inductive Args
  | request (session : ℤ) (source : ℕ)
  | response
  | wakeup
  | nothing
  deriving DecidableEq, Repr

/-- A call that runs in a coroutine. -/
structure Job where
  f : Func
  args : Args
  deriving DecidableEq, Repr

/-- The request that a call handles: its session and its source. -/
def Job.request (job : Job) : Option (ℤ × ℕ) :=
  match job.args with
  | .request session source => some (session, source)
  | _ => none

/-- Where a coroutine has yielded. -/
inductive Wait
  | CALL (session : ℕ)
  | SLEEP (session : ℕ)
  | RETURN
  deriving DecidableEq, Repr

inductive Thread
  | absent
  /-- Has its function and waits for the arguments. -/
  | ready (f : Func)
  | running (job : Job)
  | waiting (job : Job) (wait : Wait)
  /-- Has yielded `"EXIT"` and waits for another function. -/
  | exited
  | dead
  deriving DecidableEq, Repr

/-- What the main state is at. -/
inductive Control
  /-- The main chunk of the service runs. -/
  | loading
  /-- Waits for a message. -/
  | idle
  | running (co : ℕ)
  /-- In `dispatch_wakeup`. -/
  | waking
  /-- In the loop over `fork_queue`. -/
  | forking
  deriving DecidableEq, Repr

/-- A coroutine that was resumed out of the wait for a session, as it stood before. -/
structure Resumption where
  co : ℕ
  session : ℕ
  thread : Thread
  deriving DecidableEq, Repr

/-- What `c.send` is given for a `skynet.ret`, and the call it was made in. -/
structure Ret where
  address : Option ℕ
  session : Option ℤ
  job : Job
  deriving DecidableEq, Repr

/-- The tables of `skynet.lua`, the coroutines and the session counter of the context.
`issuer`, `resumed` and `rets` only keep a record: whom a session was taken for, who was
resumed out of a wait, and what was returned. -/
structure State where
  issued : ℕ
  session_id_coroutine : ℕ → Option Entry
  session_coroutine_id : ℕ → Option ℤ
  session_coroutine_address : ℕ → Option ℕ
  wakeup_session : Finset ℕ
  sleep_session : ℕ → Option ℕ
  fork_queue : List ℕ
  coroutine_pool : Option ℕ
  created : ℕ
  threads : ℕ → Thread
  control : Control
  issuer : ℕ → Option ℕ
  resumed : List Resumption
  rets : List Ret

/-- What the running code does next. -/
inductive Action
  /-- `skynet.call`, `rawcall` or `blockcall`, up to the yield. -/
  | call
  /-- A session is taken and nobody waits for it: `c.send` raised. -/
  | lost
  | sleep
  | timeout
  | wakeup (co : ℕ)
  | fork
  /-- `skynet.ret`; the flag says whether `c.send` goes through. -/
  | ret (sent : Bool)
  /-- The function of the coroutine ends. -/
  | finish
  /-- An error in the coroutine. -/
  | fail
  deriving DecidableEq, Repr

inductive Event
  | action (a : Action)
  /-- The main chunk ends. -/
  | loaded
  /-- A request; the flag says whether `p.unpack` goes through. -/
  | request (session : ℤ) (source : ℕ) (unpacked : Bool)
  /-- A response; the flag says whether an unknown one raises. -/
  | response (session : ℕ) (raises : Bool)
  /-- What `next(wakeup_session)` gives. -/
  | wake (co : Option ℕ)
  /-- What `next(fork_queue)` gives. -/
  | next (co : Option ℕ)
  deriving DecidableEq, Repr

/-! ## The functions -/

namespace State

/-- `skynet_context_newsession`. -/
def newsession (st : State) : State × ℕ :=
  ({ st with issued := st.issued + 1 }, (st.issued + 1) % 2147483648)

/-- `co_create`. The pool is written at its own length, 0, and so has one place. -/
def co_create (st : State) (f : Func) : State × ℕ :=
  match st.coroutine_pool with
  | none =>
    ({ st with
      threads := Function.update st.threads st.created (.ready f)
      created := st.created + 1 }, st.created)
  | some co =>
    ({ st with threads := Function.update st.threads co (.ready f), coroutine_pool := none }, co)

/-- `suspend(co, coroutine.resume(co, ...))` up to the next yield; a coroutine that cannot be
resumed is an error. Out of `skynet.sleep` the coroutine forgets the session it slept for. -/
def resume (st : State) (co : ℕ) (args : Args) : State :=
  match st.threads co with
  | .ready f =>
    { st with
      threads := Function.update st.threads co (.running ⟨f, args⟩)
      control := .running co }
  | .waiting job (.SLEEP _) =>
    { st with
      threads := Function.update st.threads co (.running job)
      sleep_session := Function.update st.sleep_session co none
      control := .running co }
  | .waiting job _ =>
    { st with
      threads := Function.update st.threads co (.running job)
      control := .running co }
  | _ => { st with control := .idle }

/-- The coroutine `co` yields. -/
def yields (st : State) (co : ℕ) (wait : Wait) : State :=
  match st.threads co with
  | .running job => { st with threads := Function.update st.threads co (.waiting job wait) }
  | _ => st

/-- `suspend` after `"CALL"`. -/
def suspend_CALL (st : State) (co param : ℕ) : State :=
  { st with
    session_id_coroutine :=
      Function.update st.session_id_coroutine param (some (.coroutine co))
    control := .waking }

/-- `suspend` after `"SLEEP"`. -/
def suspend_SLEEP (st : State) (co param : ℕ) : State :=
  { st with
    session_id_coroutine :=
      Function.update st.session_id_coroutine param (some (.coroutine co))
    sleep_session := Function.update st.sleep_session co (some param)
    control := .waking }

/-- `suspend` after `"RETURN"`: `c.send` raises without an address. -/
def suspend_RETURN (st : State) (co : ℕ) (job : Job) (sent : Bool) : State :=
  let co_session := st.session_coroutine_id co
  let co_address := st.session_coroutine_address co
  let st := { st with rets := ⟨co_address, co_session, job⟩ :: st.rets }
  if co_address.isSome ∧ sent = true then st.resume co .nothing else { st with control := .idle }

/-- `suspend` after `"EXIT"`. -/
def suspend_EXIT (st : State) (co : ℕ) : State :=
  { st with
    session_coroutine_id := Function.update st.session_coroutine_id co none
    session_coroutine_address := Function.update st.session_coroutine_address co none
    control := .waking }

/-- `skynet.call` in the coroutine `co`. -/
def call (st : State) (co : ℕ) : State :=
  let (st, session) := st.newsession
  let st := { st with issuer := Function.update st.issuer session (some co) }
  (st.yields co (.CALL session)).suspend_CALL co session

/-- `skynet.sleep` in the coroutine `co`. -/
def sleep (st : State) (co : ℕ) : State :=
  let (st, session) := st.newsession
  let st := { st with issuer := Function.update st.issuer session (some co) }
  (st.yields co (.SLEEP session)).suspend_SLEEP co session

/-- `skynet.timeout`; its assertion may raise. -/
def timeout (st : State) : State :=
  let (st, session) := st.newsession
  let (st, co) := st.co_create (.timeout session)
  if st.session_id_coroutine session = none then
    { st with
      issuer := Function.update st.issuer session (some co)
      session_id_coroutine :=
        Function.update st.session_id_coroutine session (some (.coroutine co)) }
  else st

/-- `skynet.wakeup`. -/
def wakeup (st : State) (co : ℕ) : State :=
  if (st.sleep_session co).isSome ∧ co ∉ st.wakeup_session then
    { st with wakeup_session := insert co st.wakeup_session }
  else st

/-- `skynet.fork`. -/
def fork (st : State) : State :=
  let (st, co) := st.co_create .fork
  { st with fork_queue := st.fork_queue ++ [co] }

/-- `skynet.ret` in the coroutine `co`. -/
def ret (st : State) (co : ℕ) (sent : Bool) : State :=
  match st.threads co with
  | .running job => (st.yields co .RETURN).suspend_RETURN co job sent
  | _ => st

/-- The function of `co` has ended: the coroutine goes to the pool and yields `"EXIT"`. -/
def finish (st : State) (co : ℕ) : State :=
  { st with
    coroutine_pool := some co
    threads := Function.update st.threads co .exited }.suspend_EXIT co

/-- An error ends the coroutine, and `suspend` raises it again. -/
def fail (st : State) (co : ℕ) : State :=
  { st with threads := Function.update st.threads co .dead, control := .idle }

/-- The wait of `co` for `session` ends. -/
def record (st : State) (co session : ℕ) : State :=
  { st with resumed := ⟨co, session, st.threads co⟩ :: st.resumed }

/-- `dispatch_wakeup`, where `next(wakeup_session)` gives `co`. -/
def dispatch_wakeup (st : State) (co : ℕ) : State :=
  let st := { st with wakeup_session := st.wakeup_session.erase co }
  match st.sleep_session co with
  | some session =>
    ({ st with
      session_id_coroutine := Function.update st.session_id_coroutine session (some .BREAK) }.record
        co session).resume co .wakeup
  | none => { st with control := .forking }

/-- `dispatch_message` with a response. -/
def dispatch_response (st : State) (session : ℕ) (raises : Bool) : State :=
  match st.session_id_coroutine session with
  | some .BREAK =>
    { st with
      session_id_coroutine := Function.update st.session_id_coroutine session none
      control := .forking }
  | none => { st with control := if raises then .idle else .forking }
  | some (.coroutine co) =>
    ({ st with
      session_id_coroutine := Function.update st.session_id_coroutine session none }.record
        co session).resume co .response

/-- `dispatch_message` with a request. -/
def dispatch_request (st : State) (session : ℤ) (source : ℕ) (unpacked : Bool) : State :=
  let (st, co) := st.co_create .dispatch
  let st :=
    { st with
      session_coroutine_id := Function.update st.session_coroutine_id co (some session)
      session_coroutine_address := Function.update st.session_coroutine_address co (some source) }
  if unpacked then st.resume co (.request session source) else st

/-- What the coroutine `co` does. -/
def act (st : State) (co : ℕ) : Action → State
  | .call => st.call co
  | .lost => st.newsession.1
  | .sleep => st.sleep co
  | .timeout => st.timeout
  | .wakeup co => st.wakeup co
  | .fork => st.fork
  | .ret sent => st.ret co sent
  | .finish => st.finish co
  | .fail => st.fail co

/-- What the main chunk does, outside of any coroutine. -/
def load (st : State) : Action → Option State
  | .lost => some st.newsession.1
  | .timeout => some st.timeout
  | .wakeup co => some (st.wakeup co)
  | .fork => some st.fork
  | _ => none

def exec (st : State) : Event → Option State
  | .action a =>
    match st.control with
    | .running co => some (st.act co a)
    | .loading => st.load a
    | _ => none
  | .loaded => if st.control = .loading then some { st with control := .idle } else none
  | .request session source unpacked =>
    if st.control = .idle then some (st.dispatch_request session source unpacked) else none
  | .response session raises =>
    if st.control = .idle then some (st.dispatch_response session raises) else none
  | .wake none =>
    if st.control = .waking ∧ st.wakeup_session = ∅ then some { st with control := .forking }
    else none
  | .wake (some co) =>
    if st.control = .waking ∧ co ∈ st.wakeup_session then some (st.dispatch_wakeup co) else none
  | .next none =>
    if st.control = .forking ∧ st.fork_queue = [] then some { st with control := .idle } else none
  | .next (some co) =>
    if st.control = .forking ∧ co ∈ st.fork_queue then
      some ({ st with fork_queue := st.fork_queue.erase co }.resume co .nothing)
    else none

/-- The service before its main chunk. -/
def start : State where
  issued := 0
  session_id_coroutine := fun _ => none
  session_coroutine_id := fun _ => none
  session_coroutine_address := fun _ => none
  wakeup_session := ∅
  sleep_session := fun _ => none
  fork_queue := []
  coroutine_pool := none
  created := 0
  threads := fun _ => .absent
  control := .loading
  issuer := fun _ => none
  resumed := []
  rets := []

end State

/-- A Lua service, whatever its coroutines do and whichever messages come. -/
def system : TSys State Event where
  init st := st = State.start
  step st e st' := st.exec e = some st'

end DnServer.Skynet.Lua
