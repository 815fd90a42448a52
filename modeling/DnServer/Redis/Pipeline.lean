import DnServer.Redis.Client
import DnServer.Redis.Reply
import DnServer.Lib.Transition

/-!
# Requests across reconnects

The whole service over a connection that may be refused, break and be opened again.
Redis answers what it is sent on a connection in order, so the client stays in step as
long as what it sent on the open connection is what it got answered there and then what
stands in its queue, in this order. A refused write leaves the request in the queue and
in the socket's unsent data too, and the next `connect` raises over that data before
anything is sent again.

* `inStep_of_calm`: `Good` is kept by the client's turns (`Good.reply`, `Good.lua`), by
  a loss and by a connect; `refused_write_shifts` is a write that is refused.
-/

namespace DnServer.Redis

open DnServer.Lib
open DnServer.Lib.Handler (after)

/-! ## The service -/

/-- A coroutine in `init`: `again` when `reconnect` called it. -/
inductive Task
  /-- It tries to connect, or sleeps between two tries. -/
  | connecting (again : Bool)
  /-- It waits for the answer to its `SELECT`. -/
  | selecting (again : Bool) (session : Session)
  deriving DecidableEq, Repr

/-- `redis_db`, and the address of the service. -/
structure Config where
  redis_db : Option Bytes
  self : Address

structure Service where
  client : Client
  tasks : List Task
  /-- The connections the connection service has to report as closed. -/
  watched : List ℕ
  /-- The sessions of own `SELECT` messages not dispatched yet. -/
  selects : List Session
  /-- The requests the replies on the open connection were matched with, in order. -/
  replied : List (Option Request)

inductive PipeEvent
  | text (session : Session) (address : Address) (mode : BatchOp)
  | ask (session : Session) (address : Address) (message : List Bytes) (ok : Bool)
  | reply (r : Reply)
  /-- The connection service reports a closed connection. -/
  | lost (fd : ℕ)
  /-- A task tries to connect; `oks` is whether what is sent again is taken. -/
  | connect (i : ℕ) (opened : Option ℕ) (oks : List Bool) (session : Session)
  /-- The service's own `SELECT` message is dispatched. -/
  | select (session : Session) (ok : Bool)
  /-- A task gets the answer to its `SELECT`. -/
  | selected (i : ℕ) (oks : List Bool)
  deriving DecidableEq, Repr

/-- `"SELECT"` and `"OK"`. -/
def SELECT : Bytes := [83, 69, 76, 69, 67, 84]
def OK : Bytes := [79, 75]

/-- The loop of `reconnect`. -/
def resend (s : Socket) : List Request → List Bool → Socket
  | [], _ => s
  | request :: queue, oks => resend (after (s.write [.string request.cmd] (oks.headD true))) queue oks.tail

namespace Service

/-- The start of the service: it goes to connect. -/
def start : Service := ⟨.start, [.connecting false], [], [], []⟩

/-- What is left of `init` or `reconnect` once the connection is made. -/
def finish (s : Service) (i : ℕ) (again : Bool) (oks : List Bool) : Service :=
  { s with
    client :=
      if again then
        { s.client with
          socket := resend s.client.socket s.client.request_queue oks
          split_co := .top }
      else s.client
    tasks := s.tasks.eraseIdx i }

/-- Task `i` is at `while socket.connect(redis_server)`. -/
def connect (config : Config) (s : Service) (i : ℕ) (again : Bool) (opened : Option ℕ)
    (oks : List Bool) (session : Session) : Service :=
  match opened, s.client.socket.connect opened with
  | none, _ => { s with client := { s.client with socket := s.client.socket.close } }
  | some fd, .error (_, socket) =>
    -- `presend` raised: the coroutine is gone
    { s with
      client := { s.client with socket := socket }
      tasks := s.tasks.eraseIdx i
      watched := s.watched ++ [fd]
      replied := [] }
  | some fd, .ok (socket, _) =>
    let s := { s with
      client := { s.client with socket := socket }
      watched := s.watched ++ [fd]
      replied := [] }
    match config.redis_db with
    | none => s.finish i again oks
    | some _ => { s with
        tasks := s.tasks.set i (.selecting again session)
        selects := s.selects ++ [session] }

/-- Task `i` goes on with the answer to its `SELECT`, if that is there. -/
def selected (config : Config) (s : Service) (i : ℕ) (again : Bool) (session : Session)
    (oks : List Bool) : Option Service :=
  (s.client.out.find? fun r => r.address = config.self ∧ r.session = session).map fun r =>
    if r.suc ∧ r.value = .value (.string OK) then s.finish i again oks
    -- `assert` fails: the coroutine is gone
    else { s with tasks := s.tasks.eraseIdx i }

/-- One event; `none` where it cannot happen. A reply comes on an open connection and
only to something sent on it. -/
def exec (config : Config) (s : Service) : PipeEvent → Option Service
  | .text session address mode =>
    some { s with client := after (s.client.text session address mode) }
  | .ask session address message ok =>
    some { s with client := after (s.client.lua session address message ok) }
  | .reply r =>
    if s.client.socket.fd.isSome ∧ s.replied.length < s.client.socket.sent.length then
      some { s with
        client := after (s.client.response r.decoded.1 r.decoded.2)
        replied := s.replied ++ [s.client.request_queue.head?] }
    else none
  | .lost fd =>
    if fd ∈ s.watched then
      some { s with watched := s.watched.erase fd, tasks := s.tasks ++ [.connecting true] }
    else none
  | .connect i opened oks session =>
    match s.tasks[i]? with
    | some (.connecting again) => some (s.connect config i again opened oks session)
    | _ => none
  | .select session ok =>
    if session ∈ s.selects then
      some { s with
        selects := s.selects.erase session
        client := after (s.client.lua session config.self [SELECT, config.redis_db.getD []] ok) }
    else none
  | .selected i oks =>
    match s.tasks[i]? with
    | some (.selecting again session) => s.selected config i again session oks
    | _ => none

def system (config : Config) : TSys Service PipeEvent where
  init s := s = start
  step s e t := exec config s e = some t

/-! ## In step -/

/-- The `k`-th reply on the open connection answered the `k`-th request sent on it, and
the outstanding requests were each sent on it once, in queue order, behind those. -/
structure InStep (s : Service) : Prop where
  answered : ∀ (k : ℕ) (q : Option Request), s.replied[k]? = some q →
    ∃ request, q = some request ∧ s.client.socket.sent[k]? = some request.cmd
  outstanding : s.client.socket.sent.drop s.replied.length =
    s.client.request_queue.map Request.cmd

/-- Task `i` is a `reconnect` that waits for the answer to its `SELECT`. -/
def reselecting (s : Service) (i : ℕ) : Bool :=
  match s.tasks[i]? with
  | some (.selecting again _) => again
  | _ => false

/-- Every write of the step finds the connection open and is taken; with a database to
select, nothing is outstanding when a connection is made, nor when the `SELECT` of a
`reconnect` is answered: what came behind that `SELECT` would be sent twice. The first
`init` sends nothing again, so its `SELECT` may have requests behind it. -/
def Calm (config : Config) (s : Service) : PipeEvent → Prop
  | .ask _ _ _ ok => s.client.socket.fd.isSome ∧ ok = true
  | .select _ ok => s.client.socket.fd.isSome ∧ ok = true
  | .connect _ (some _) oks _ =>
    (∀ ok ∈ oks, ok = true) ∧ (config.redis_db = none ∨ s.client.request_queue = [])
  | .selected i _ => reselecting s i = true → s.client.request_queue = []
  | _ => True

/-! ## What the client's functions do to queue and connection -/

/-- A service with an open batch has its requests counted. -/
def Counted (c : Client) : Prop :=
  ∀ a, c.batch_mode.get? a = some .read ∨ c.batch_mode.get? a = some .write →
    (c.batch_count.get? a).isSome

theorem counted_close {c : Client} (h : Counted c) (a : Address) (session : Session) :
    Counted (c.batch_close a session) := by
  intro b hb
  simp only [Client.batch_close, Table.get?_erase] at hb ⊢
  split at hb
  · simp at hb
  · rename_i hba
    rw [if_neg hba]
    exact h b hb

theorem counted_set {c : Client} (h : Counted c) (a : Address) (n : ℤ) :
    Counted { c with batch_count := c.batch_count.set a n } := by
  intro b hb
  simp only [Table.get?_set]
  split
  · rfl
  · exact h b hb

/-- The queue, the socket and whether what is open is counted: what this module needs to
know of a client. -/
structure Frame (c c' : Client) : Prop where
  queue : c'.request_queue = c.request_queue
  socket : c'.socket = c.socket
  counted : Counted c → Counted c'

theorem frame_batch_dec (c : Client) (a : Address) : Frame c (after (c.batch_dec a)) := by
  cases hbc : c.batch_count.get? a with
  | none =>
    simp only [Client.batch_dec, hbc]
    exact ⟨rfl, rfl, id⟩
  | some bc =>
    simp only [Client.batch_dec, hbc, Handler.index_some, Handler.ok_bind]
    by_cases h1 : bc = 1
    · simp only [if_pos h1]
      rcases c.batch_mode.get? a with _ | _ | _ | session
      · exact ⟨rfl, rfl, fun h => counted_set h a _⟩
      · exact ⟨rfl, rfl, fun h => counted_set h a _⟩
      · exact ⟨rfl, rfl, fun h => counted_set h a _⟩
      · exact ⟨rfl, rfl, fun h => counted_close (counted_set h a _) a session⟩
    · simp only [if_neg h1]
      exact ⟨rfl, rfl, fun h => counted_set h a _⟩

theorem frame_text (c : Client) (session : Session) (a : Address) (mode : BatchOp) :
    Frame c (after (c.text session a mode)) := by
  have hopen : Counted c → ∀ (m : Mode) (reply : Table Address BatchReply), Counted { c with
      batch_reply := reply
      batch_count := c.batch_count.set a 0
      batch_mode := c.batch_mode.set a m } := by
    intro h m reply b hb
    simp only [Table.get?_set] at hb ⊢
    split
    · rfl
    · rename_i hba
      rw [if_neg hba] at hb
      exact h b hb
  cases mode with
  | «end» =>
    simp only [Client.text]
    split
    · split
      · exact ⟨rfl, rfl, fun h => counted_close h a session⟩
      · refine ⟨rfl, rfl, ?_⟩
        intro h b hb
        simp only [Handler.after_ok, Table.get?_set] at hb
        split at hb
        · simp at hb
        · exact h b hb
    · exact ⟨rfl, rfl, id⟩
  | read =>
    simp only [Client.text]
    split
    · exact ⟨rfl, rfl, fun h => hopen h _ _⟩
    · exact ⟨rfl, rfl, id⟩
  | write =>
    simp only [Client.text]
    split
    · exact ⟨rfl, rfl, fun h => hopen h _ _⟩
    · exact ⟨rfl, rfl, id⟩
  | other =>
    simp only [Client.text]
    split <;> exact ⟨rfl, rfl, id⟩

/-- A reply takes the oldest request off the queue. -/
theorem frame_response {c : Client} {q : Request} {queue : List Request}
    (hq : c.request_queue = q :: queue) (suc : Bool) (value : Value) :
    Frame { c with request_queue := queue } (after (c.response suc value)) := by
  simp only [Client.response, hq]
  -- what a batch collects concerns neither queue nor socket nor counts
  have hdec : ∀ reply : Table Address BatchReply, Frame { c with request_queue := queue }
      (after ({ c with request_queue := queue, batch_reply := reply }.batch_dec q.address)) := by
    intro reply
    have h := frame_batch_dec { c with request_queue := queue, batch_reply := reply } q.address
    exact ⟨h.queue, h.socket, h.counted⟩
  rcases q.batch with _ | _ | _ | session
  · exact ⟨rfl, rfl, id⟩
  · cases suc with
    | true =>
      simp only [if_true]
      rcases c.batch_reply.get? q.address with _ | _ | _ <;> exact hdec _
    | false => exact hdec _
  · cases suc <;> exact hdec _
  · exact ⟨rfl, rfl, id⟩

/-- A request whose write is taken is sent and queued. -/
theorem lua_taken {c : Client} (h : Counted c) (hfd : c.socket.fd.isSome) (session : Session)
    (a : Address) (message : List Bytes) :
    ∃ count : Table Address ℤ, after (c.lua session a message true) = { c with
      socket := { c.socket with sent := c.socket.sent ++ [compose_message message] }
      batch_count := count
      request_queue := c.request_queue ++
        [⟨session, a, compose_message message, c.batch_mode.get? a⟩] } ∧
      Counted { c with batch_count := count } := by
  by_cases hm : c.batch_mode.get? a = some .read ∨ c.batch_mode.get? a = some .write
  · obtain ⟨bc, hbc⟩ := Option.isSome_iff_exists.mp (h a hm)
    refine ⟨c.batch_count.set a (bc + 1), ?_, counted_set h a _⟩
    simp only [Client.lua, Socket.write_taken hfd, if_pos hm, hbc]
    rfl
  · refine ⟨c.batch_count, ?_, h⟩
    simp only [Client.lua, Socket.write_taken hfd, if_neg hm]
    rfl

theorem resend_taken {s : Socket} (hfd : s.fd.isSome) (queue : List Request) {oks : List Bool}
    (hoks : ∀ ok ∈ oks, ok = true) :
    resend s queue oks = { s with sent := s.sent ++ queue.map Request.cmd } := by
  induction queue generalizing s oks with
  | nil =>
    rw [List.map_nil, List.append_nil]
    rfl
  | cons request queue ih =>
    have hhead : oks.headD true = true := by
      cases oks with
      | nil => rfl
      | cons ok oks => exact hoks ok List.mem_cons_self
    rw [resend, hhead, Socket.write_taken hfd, Handler.after_ok,
      ih (s := { s with sent := s.sent ++ [request.cmd] }) hfd
        fun ok hok => hoks ok (List.mem_of_mem_tail hok),
      List.append_assoc]
    rfl

/-! ## The invariant -/

/-- Nothing is left unsent, and what was sent is what was answered and what is queued. The
first task of all is alone and has nothing to send. -/
structure Good (s : Service) : Prop where
  data : s.client.socket.data = []
  matched : s.client.socket.sent.map some =
    s.replied.map (Option.map Request.cmd) ++ s.client.request_queue.map (some ∘ Request.cmd)
  counted : Counted s.client
  first : .connecting false ∈ s.tasks → s.tasks = [.connecting false] ∧ s.watched = [] ∧
    s.selects = [] ∧ s.client.request_queue = [] ∧ s.client.socket.fd = none

theorem Good.inStep {s : Service} (h : Good s) : InStep s := by
  constructor
  · intro k q hq
    have hk : k < s.replied.length := (List.getElem?_eq_some_iff.mp hq).1
    have hget := congrArg (fun l => l[k]?) h.matched
    simp only [List.getElem?_map] at hget
    rw [List.getElem?_append_left (by simpa using hk), List.getElem?_map, hq] at hget
    cases hs : s.client.socket.sent[k]? with
    | none =>
      rw [hs] at hget
      cases hget
    | some cmd =>
      rw [hs] at hget
      cases q with
      | none => simp at hget
      | some request =>
        refine ⟨request, rfl, ?_⟩
        simp only [Option.map_some, Option.some.injEq] at hget
        rw [hget]
  · have hdrop := congrArg (List.drop s.replied.length) h.matched
    have hlen : (s.replied.map (Option.map Request.cmd)).length = s.replied.length :=
      List.length_map _
    rw [← List.map_drop, ← hlen, List.drop_left, hlen, ← List.map_map] at hdrop
    exact List.map_injective_iff.mpr (Option.some_injective _) hdrop

theorem Good.start : Good start where
  data := rfl
  matched := rfl
  counted a ha := by
    rcases ha with ha | ha <;> cases ha
  first _ := ⟨rfl, rfl, rfl, rfl, rfl⟩

/-- While the first task is there nothing is open. -/
theorem Good.not_first {s : Service} (h : Good s) (hfd : s.client.socket.fd.isSome) :
    .connecting false ∉ s.tasks := by
  intro hmem
  rw [(h.first hmem).2.2.2.2] at hfd
  cases hfd

theorem Good.text {s : Service} (h : Good s) (session : Session) (a : Address) (mode : BatchOp) :
    Good { s with client := after (s.client.text session a mode) } := by
  have hf := frame_text s.client session a mode
  exact {
    data := by rw [hf.socket]; exact h.data
    matched := by rw [hf.socket, hf.queue]; exact h.matched
    counted := hf.counted h.counted
    first := by rw [hf.socket, hf.queue]; exact h.first }

theorem Good.lua {s : Service} (h : Good s) (hfd : s.client.socket.fd.isSome) (session : Session)
    (a : Address) (message : List Bytes) (selects : List Session) :
    Good { s with selects := selects, client := after (s.client.lua session a message true) } := by
  obtain ⟨count, hlua, hcount⟩ := lua_taken h.counted hfd session a message
  rw [hlua]
  exact {
    data := h.data
    matched := by
      simp only [List.map_append, h.matched, List.append_assoc]
      rfl
    counted := hcount
    first := fun hmem => absurd hmem (h.not_first hfd) }

theorem Good.reply {s : Service} (h : Good s) (hfd : s.client.socket.fd.isSome)
    (hlt : s.replied.length < s.client.socket.sent.length) (suc : Bool) (value : Value) :
    Good { s with
      client := after (s.client.response suc value)
      replied := s.replied ++ [s.client.request_queue.head?] } := by
  have hlen := congrArg List.length h.matched
  simp only [List.length_map, List.length_append] at hlen
  obtain ⟨q, queue, hq⟩ := List.exists_cons_of_length_pos
    (show 0 < s.client.request_queue.length by omega)
  have hf := frame_response hq suc value
  exact {
    data := by rw [hf.socket]; exact h.data
    matched := by
      rw [hf.socket, hf.queue, h.matched, hq]
      simp
    counted := hf.counted h.counted
    first := fun hmem => absurd hmem (h.not_first hfd) }

theorem Good.lost {s : Service} (h : Good s) {fd : ℕ} (hfd : fd ∈ s.watched) :
    Good { s with watched := s.watched.erase fd, tasks := s.tasks ++ [.connecting true] } where
  data := h.data
  matched := h.matched
  counted := h.counted
  first := by
    intro hmem
    have hfirst : Task.connecting false ∈ s.tasks := by simpa using hmem
    rw [(h.first hfirst).2.1] at hfd
    cases hfd

/-- Where a task is done or dead, the first task is not there, or was not this one. -/
theorem Good.erased {s : Service} (h : Good s) (i : ℕ) :
    Good { s with tasks := s.tasks.eraseIdx i } where
  data := h.data
  matched := h.matched
  counted := h.counted
  first := by
    intro hmem
    have hfirst := h.first (List.mem_of_mem_eraseIdx hmem)
    refine ⟨?_, hfirst.2⟩
    simp only [hfirst.1] at hmem ⊢
    cases i with
    | zero => cases hmem
    | succ i => rfl

/-- A connection is made with nothing unsent; what is queued is sent again. -/
theorem Good.finish {s : Service} (hdata : s.client.socket.data = [])
    (hsent : s.client.socket.sent = []) (hreplied : s.replied = []) (hcounted : Counted s.client)
    (hfd : s.client.socket.fd.isSome) {i : ℕ} {again : Bool} (hqueue : again = false →
      s.client.request_queue = []) (hfirst : .connecting false ∉ s.tasks.eraseIdx i)
    {oks : List Bool} (hoks : ∀ ok ∈ oks, ok = true) : Good (s.finish i again oks) := by
  cases again with
  | false =>
    exact {
      data := hdata
      matched := by
        show s.client.socket.sent.map some = _ ++ s.client.request_queue.map _
        rw [hsent, hqueue rfl]
        show [] = s.replied.map _ ++ []
        rw [hreplied]
        rfl
      counted := hcounted
      first := fun hmem => absurd hmem hfirst }
  | true =>
    have hresend := resend_taken hfd s.client.request_queue hoks
    exact {
      data := by
        show (resend _ _ _).data = []
        rw [hresend]
        exact hdata
      matched := by
        show (resend _ _ _).sent.map some = s.replied.map _ ++ _
        rw [hresend, hreplied]
        show (s.client.socket.sent ++ _).map some = _
        rw [hsent, List.nil_append, List.map_map]
        rfl
      counted := hcounted
      first := fun hmem => absurd hmem hfirst }

theorem connect_open {s : Socket} (hdata : s.data = []) (fd : ℕ) :
    s.connect (some fd) = .ok ({ s with fd := some fd, object := .new, sent := [] }, false) := by
  simp [Socket.connect, Socket.presend, hdata]

/-- Without the first task among the others the erased list has none. -/
theorem not_first_of_index {s : Service} (h : Good s) {i : ℕ} {again : Bool}
    (hi : s.tasks[i]? = some (.connecting again)) :
    .connecting false ∉ s.tasks.eraseIdx i ∧ (again = false → s.client.request_queue = []) := by
  constructor
  · intro hmem
    have hone := (h.first (List.mem_of_mem_eraseIdx hmem)).1
    rw [hone] at hi hmem
    cases i with
    | zero => cases hmem
    | succ i => cases hi
  · rintro rfl
    exact (h.first (List.mem_of_getElem? hi)).2.2.2.1

theorem Good.connect {config : Config} {s : Service} (h : Good s) {i : ℕ} {again : Bool}
    (hi : s.tasks[i]? = some (.connecting again)) {opened : Option ℕ} {oks : List Bool}
    {session : Session} (hcalm : Calm config s (.connect i opened oks session)) :
    Good (s.connect config i again opened oks session) := by
  cases opened with
  | none =>
    exact {
      data := h.data
      matched := h.matched
      counted := h.counted
      first := by
        intro hmem
        obtain ⟨h1, h2, h3, h4, -⟩ := h.first hmem
        exact ⟨h1, h2, h3, h4, rfl⟩ }
  | some fd =>
    obtain ⟨hoks, hdb⟩ := hcalm
    obtain ⟨hnot, hqueue⟩ := not_first_of_index h hi
    simp only [Service.connect, connect_open h.data]
    cases hc : config.redis_db with
    | none =>
      refine Good.finish (s := { s with
        client := { s.client with
          socket := { s.client.socket with fd := some fd, object := .new, sent := [] } }
        watched := s.watched ++ [fd]
        replied := [] }) h.data rfl rfl h.counted rfl hqueue hnot hoks
    | some id =>
      rw [hc] at hdb
      have hnil : s.client.request_queue = [] := hdb.resolve_left (by simp)
      exact {
        data := h.data
        matched := by
          show [] = s.client.request_queue.map _
          rw [hnil]
          rfl
        counted := h.counted
        first := by
          intro hmem
          have hfirst : Task.connecting false ∈ s.tasks :=
            (List.mem_or_eq_of_mem_set hmem).resolve_right (by simp)
          -- it was this task, which now waits for its answer
          simp only [(h.first hfirst).1] at hi hmem
          cases i with
          | zero => simp at hmem
          | succ i => cases hi }

theorem Good.selected {config : Config} {s t : Service} (h : Good s) {i : ℕ} {again : Bool}
    {session : Session} {oks : List Bool} (hnil : again = true → s.client.request_queue = [])
    (ht : s.selected config i again session oks = some t) : Good t := by
  obtain ⟨r, -, rfl⟩ := Option.map_eq_some_iff.mp ht
  have herased := h.erased i
  split
  · have hclient : (s.finish i again oks).client = { s.client with
        split_co := if again then .top else s.client.split_co } := by
      cases again with
      | false => rfl
      | true =>
        show ({ s.client with
          socket := resend s.client.socket s.client.request_queue oks, split_co := .top } : Client) = _
        rw [hnil rfl]
        rfl
    exact {
      data := by rw [hclient]; exact herased.data
      matched := by rw [hclient]; exact herased.matched
      counted := by rw [hclient]; exact herased.counted
      first := by rw [hclient]; exact herased.first }
  · exact herased

/-! ## Main result -/

/-- In a run of calm steps the client is in step with the server at every moment. -/
theorem inStep_of_calm {config : Config} {s : Service}
    (hs : ((system config).restrict (Calm config)).Reachable s) : InStep s := by
  suffices hgood : Good s from hgood.inStep
  apply TSys.Inductive.invariant (P := Good) _ s hs
  constructor
  · rintro s rfl
    exact Good.start
  · rintro s e t - h ⟨hcalm, hstep⟩
    cases e with
    | text session address mode =>
      obtain rfl := Option.some.inj hstep
      exact h.text session address mode
    | ask session address message ok =>
      obtain rfl := Option.some.inj hstep
      obtain ⟨hfd, rfl⟩ := hcalm
      exact h.lua hfd session address message s.selects
    | reply r =>
      obtain ⟨⟨hfd, hlt⟩, ht⟩ := Option.ite_none_right_eq_some.mp hstep
      obtain rfl := Option.some.inj ht
      exact h.reply hfd hlt r.decoded.1 r.decoded.2
    | lost fd =>
      obtain ⟨hfd, ht⟩ := Option.ite_none_right_eq_some.mp hstep
      obtain rfl := Option.some.inj ht
      exact h.lost hfd
    | connect i opened oks session =>
      simp only [system, exec] at hstep
      split at hstep
      · rename_i again hi
        obtain rfl := Option.some.inj hstep
        exact h.connect hi hcalm
      · cases hstep
    | select session ok =>
      obtain ⟨-, ht⟩ := Option.ite_none_right_eq_some.mp hstep
      obtain rfl := Option.some.inj ht
      obtain ⟨hfd, rfl⟩ := hcalm
      exact h.lua hfd session config.self _ (s.selects.erase session)
    | selected i oks =>
      simp only [system, exec] at hstep
      split at hstep
      · rename_i again session hi
        refine h.selected ?_ hstep
        rintro rfl
        exact hcalm (by rw [reselecting, hi])
      · cases hstep

instance decidableCalm (config : Config) :
    ∀ (s : Service) (e : PipeEvent), Decidable (Calm config s e)
  | s, .ask _ _ _ ok => inferInstanceAs (Decidable (s.client.socket.fd.isSome = true ∧ ok = true))
  | s, .select _ ok => inferInstanceAs (Decidable (s.client.socket.fd.isSome = true ∧ ok = true))
  | s, .connect _ (some _) oks _ =>
    inferInstanceAs (Decidable ((∀ ok ∈ oks, ok = true) ∧
      (config.redis_db = none ∨ s.client.request_queue = [])))
  | _, .connect _ none _ _ => inferInstanceAs (Decidable True)
  | s, .selected i _ =>
    inferInstanceAs (Decidable (reselecting s i = true → s.client.request_queue = []))
  | _, .text .. => inferInstanceAs (Decidable True)
  | _, .reply _ => inferInstanceAs (Decidable True)
  | _, .lost _ => inferInstanceAs (Decidable True)

/-- Of two requests one is answered when the connection is lost; the other is sent again. -/
theorem inStep_of_calm_lost : ∃ s : Service,
    s.client.socket.sent = [compose_message [[80]]] ∧ s.tasks = [] ∧ InStep s := by
  obtain ⟨s, hs, hp⟩ := TSys.reachable_of_exec (T := (system ⟨none, 1⟩).restrict (Calm ⟨none, 1⟩))
    (TSys.restrictExec_step fun _ _ _ h => h) (s := start) rfl
    (l := [.connect 0 (some 3) [] 0, .ask 1 7 [[71]] true, .ask 2 8 [[80]] true,
      .reply (.status [79]), .lost 3, .connect 0 none [] 0, .connect 0 (some 4) [] 0])
    (p := fun s => decide (s.client.socket.sent = [compose_message [[80]]] ∧ s.tasks = []))
    (by decide +kernel)
  obtain ⟨hsent, htasks⟩ := of_decide_eq_true hp
  exact ⟨s, hsent, htasks, inStep_of_calm hs⟩

/-- A write is refused and the connection made again: the request is never sent again, and
the reply to the next one is taken for its own. -/
theorem refused_write_shifts : ∃ s : Service, (system ⟨none, 1⟩).Reachable s ∧
    s.tasks = [] ∧ s.client.socket.fd.isSome ∧ ¬ InStep s := by
  obtain ⟨s, hs, hp⟩ := TSys.reachable_of_exec (T := system ⟨none, 1⟩)
    (fun _ _ _ h => h) (s := start) rfl
    (l := [.connect 0 (some 3) [] 0, .ask 1 7 [[71]] false, .lost 3, .connect 0 (some 4) [] 0,
      .ask 2 8 [[80]] true, .reply (.status [79])])
    (p := fun s => decide (s.tasks = [] ∧ s.client.socket.fd.isSome = true ∧
      s.client.socket.sent = [compose_message [[80]]] ∧
      s.replied = [some ⟨1, 7, compose_message [[71]], none⟩]))
    (by decide +kernel)
  obtain ⟨htasks, hfd, hsent, hreplied⟩ := of_decide_eq_true hp
  refine ⟨s, hs, htasks, hfd, ?_⟩
  intro h
  obtain ⟨request, hrequest, hcmd⟩ := h.answered 0 _ (by rw [hreplied]; rfl)
  obtain rfl := Option.some.inj hrequest
  rw [hsent] at hcmd
  exact absurd hcmd (by decide)

end Service

end DnServer.Redis
