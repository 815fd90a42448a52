import DnServer.Lib.Transition

/-!
# Sending on a socket of the gate

The send half of `mread.c`: a buffer is written directly while nothing waits,
what is left of it waits in a queue, and writable events drain the queue. Bytes
leave in push order while the queue is only given up together with the socket.
A write that fails on a writable event gives up the queue and keeps the socket.

* `written_prefix`: `Ordered` keeps what was written, what waits and what was pushed in
  one order; a step that gives up the queue of an open socket is the one exception
  (`written_skips`).
-/

namespace DnServer.Gate

open DnServer.Lib

/-- `SOCKET_INVALID` to `SOCKET_HALFCLOSE`. -/
inductive SocketStatus
  | INVALID
  | CLOSED
  | SUSPEND
  | READ
  | POLLIN
  | FIRST_POLLIN
  | CONNECTED
  | HALFCLOSE
  deriving DecidableEq, Repr

namespace SocketStatus

/-- `status >= SOCKET_ALIVE`. -/
def alive : SocketStatus → Bool
  | .INVALID => false
  | .CLOSED => false
  | _ => true

/-- Neither closed nor about to be. -/
def isOpen (status : SocketStatus) : Bool := status.alive && status != .HALFCLOSE

end SocketStatus

/-- `struct socket`; `client` is the list of buffers from `client.head` on, `node` and `temp`
are offsets in the ring, and in a free slot `fd` is the index of the next one. -/
structure Socket where
  fd : ℤ
  node : Option ℕ
  temp : Option ℕ
  client : List (List UInt8)
  enablewrite : Bool
  status : SocketStatus
  deriving DecidableEq, Repr

/-- What `write` can say; it takes at most what it is given. -/
inductive WriteResult
  | wrote (n : ℕ)
  | EINTR
  | EWOULDBLOCK
  /-- Any other error. -/
  | failed
  deriving DecidableEq, Repr

/-- `client_send`: the buffers that are left and the bytes that were written. The writes
are answered by the list; behind its end the socket would block. -/
def client_send : List (List UInt8) → List WriteResult → List (List UInt8) × List UInt8
  | c, [] => (c, [])
  | c, .EINTR :: env => client_send c env
  | c, .EWOULDBLOCK :: _ => (c, [])
  | _, .failed :: _ => ([], [])
  | [], .wrote _ :: _ => ([], [])
  | tmp :: c, .wrote n :: env =>
    if n < tmp.length then (tmp.drop n :: c, tmp.take n)
    else ((client_send c env).1, tmp ++ (client_send c env).2)

/-- How the loop in `mread_push` ends. -/
inductive PushResult
  | written
  | remaining (buffer : List UInt8)
  | failed
  deriving DecidableEq, Repr

/-- The loop in `mread_push`, with the bytes it wrote. -/
def push_write : List UInt8 → List WriteResult → PushResult × List UInt8
  | buffer, [] => (.remaining buffer, [])
  | buffer, .EINTR :: env => push_write buffer env
  | buffer, .EWOULDBLOCK :: _ => (.remaining buffer, [])
  | _, .failed :: _ => (.failed, [])
  | buffer, .wrote n :: env =>
    if n < buffer.length then
      ((push_write (buffer.drop n) env).1, buffer.take n ++ (push_write (buffer.drop n) env).2)
    else (.written, buffer)

namespace Socket

def turn_on (s : Socket) : Socket :=
  if !s.status.alive || s.enablewrite then s else { s with enablewrite := true }

def turn_off (s : Socket) : Socket :=
  if !s.status.alive || !s.enablewrite then s else { s with enablewrite := false }

/-- `try_close`, and whether `closed` is counted up. -/
def try_close (s : Socket) : Socket × Bool :=
  let s := if s.client = [] then s.turn_off else s
  if s.status ≠ .HALFCLOSE then (s, false)
  else if s.client = [] then ({ s with status := .CLOSED, node := none, temp := none }, true)
  else (s, false)

/-- `mread_push`: also the bytes that were written and whether the socket was closed. -/
def mread_push (s : Socket) (buffer : List UInt8) (env : List WriteResult) :
    Socket × List UInt8 × Bool :=
  if !s.status.isOpen then (s, [], false)
  else if s.client = [] then
    match push_write buffer env with
    | (.failed, out) =>
      ({ s with status := .HALFCLOSE }.try_close.1, out, { s with status := .HALFCLOSE }.try_close.2)
    | (.written, out) => (s, out, false)
    | (.remaining buffer, out) => ({ s with client := [buffer] }.turn_on, out, false)
  else ({ s with client := s.client ++ [buffer] }.turn_on, [], false)

/-- The writable event in `_read_one`. -/
def writable (s : Socket) (env : List WriteResult) : Socket × List UInt8 × Bool :=
  if s.status = .CLOSED then (s, [], false)
  else
    let r := client_send s.client env
    ({ s with client := r.1 }.try_close.1, r.2, { s with client := r.1 }.try_close.2)

/-- `mread_close_client`. -/
def mread_close_client (s : Socket) : Socket × Bool :=
  if !s.status.isOpen then (s, false) else { s with status := .HALFCLOSE }.try_close

/-- `force_close_client`. -/
def force_close_client (s : Socket) : Socket × Bool :=
  if !s.status.isOpen then (s, false)
  else { s with client := [], status := .HALFCLOSE }.try_close

end Socket

/-! ## One connection -/

/-- A connection, what was pushed to it and what was written to its socket. -/
structure Sending where
  socket : Socket
  pushed : List UInt8
  written : List UInt8
  deriving DecidableEq

/-- What happens to it. -/
inductive SendEvent
  | push (buffer : List UInt8) (env : List WriteResult)
  | writable (env : List WriteResult)
  | close
  | force_close
  /-- The read half of the pool changes the status of an open socket. -/
  | reading (status : SocketStatus)
  deriving DecidableEq

namespace Sending

def exec (p : Sending) : SendEvent → Option Sending
  | .push buffer env =>
    let r := p.socket.mread_push buffer env
    some ⟨r.1, p.pushed ++ buffer, p.written ++ r.2.1⟩
  | .writable env =>
    let r := p.socket.writable env
    some ⟨r.1, p.pushed, p.written ++ r.2.1⟩
  | .close => some { p with socket := p.socket.mread_close_client.1 }
  | .force_close => some { p with socket := p.socket.force_close_client.1 }
  | .reading status =>
    if p.socket.status.isOpen ∧ status.isOpen then
      some { p with socket := { p.socket with status := status } }
    else none

/-- A connection from `_add_client` on. -/
def system : TSys Sending SendEvent where
  init p := p.socket.status = .CONNECTED ∧ p.socket.client = [] ∧ p.pushed = [] ∧ p.written = []
  step p e p' := p.exec e = some p'

end Sending

/-! ## The writes -/

/-- `client_send` gives up a queue that is not empty. -/
def drops : List (List UInt8) → List WriteResult → Bool
  | _, [] => false
  | c, .EINTR :: env => drops c env
  | _, .EWOULDBLOCK :: _ => false
  | c, .failed :: _ => c ≠ []
  | [], .wrote _ :: _ => false
  | tmp :: c, .wrote n :: env => ¬n < tmp.length && drops c env

variable {c : List (List UInt8)} {env : List WriteResult} {buffer : List UInt8}

/-- What was written and what is left is what was there. -/
theorem client_send_keeps (h : drops c env = false) :
    (client_send c env).2 ++ (client_send c env).1.flatten = c.flatten := by
  fun_induction client_send c env with
  | case1 => rfl
  | case2 c env ih => exact ih h
  | case3 => rfl
  | case4 c env =>
    have hc : c = [] := by simpa [drops] using h
    rw [hc]
    rfl
  | case5 => rfl
  | case6 tmp c n env hn =>
    show tmp.take n ++ (tmp.drop n :: c).flatten = (tmp :: c).flatten
    rw [List.flatten_cons, ← List.append_assoc, List.take_append_drop, List.flatten_cons]
  | case7 tmp c n env hn ih =>
    have hrest : drops c env = false := by simpa [drops, hn] using h
    show tmp ++ (client_send c env).2 ++ (client_send c env).1.flatten = (tmp :: c).flatten
    rw [List.append_assoc, ih hrest, List.flatten_cons]

/-- Given up or not, what was written comes first. -/
theorem client_send_prefix :
    (client_send c env).2 ++ (client_send c env).1.flatten <+: c.flatten := by
  fun_induction client_send c env with
  | case1 => exact List.prefix_rfl
  | case2 c env ih => exact ih
  | case3 => exact List.prefix_rfl
  | case4 => exact List.nil_prefix
  | case5 => exact List.prefix_rfl
  | case6 tmp c n env hn =>
    show tmp.take n ++ (tmp.drop n :: c).flatten <+: (tmp :: c).flatten
    rw [List.flatten_cons, ← List.append_assoc, List.take_append_drop, List.flatten_cons]
  | case7 tmp c n env hn ih =>
    show tmp ++ (client_send c env).2 ++ (client_send c env).1.flatten <+: (tmp :: c).flatten
    rw [List.append_assoc, List.flatten_cons]
    exact List.prefix_append_right_inj tmp |>.mpr ih

/-- The bytes that `mread_push` has still to send. -/
def PushResult.left : PushResult → List UInt8
  | .remaining buffer => buffer
  | _ => []

theorem push_write_prefix :
    (push_write buffer env).2 ++ (push_write buffer env).1.left <+: buffer := by
  fun_induction push_write buffer env with
  | case1 => exact List.prefix_rfl
  | case2 buffer env ih => exact ih
  | case3 => exact List.prefix_rfl
  | case4 => exact List.nil_prefix
  | case5 buffer n env hn ih =>
    show buffer.take n ++ _ ++ _ <+: buffer
    rw [List.append_assoc]
    conv_rhs => rw [← List.take_append_drop n buffer]
    exact List.prefix_append_right_inj _ |>.mpr ih
  | case6 buffer n env hn =>
    show buffer ++ [] <+: buffer
    rw [List.append_nil]

/-- Unless a write failed, nothing is lost. -/
theorem push_write_keeps (h : (push_write buffer env).1 ≠ .failed) :
    (push_write buffer env).2 ++ (push_write buffer env).1.left = buffer := by
  fun_induction push_write buffer env with
  | case1 => rfl
  | case2 buffer env ih => exact ih h
  | case3 => rfl
  | case4 => exact absurd rfl h
  | case5 buffer n env hn ih =>
    show buffer.take n ++ _ ++ _ = buffer
    rw [List.append_assoc, ih h, List.take_append_drop]
  | case6 buffer n env hn => exact List.append_nil buffer

/-! ## The steps -/

namespace Socket

variable {s : Socket}

theorem turn_on_spec : s.turn_on.client = s.client ∧ s.turn_on.status = s.status := by
  unfold turn_on
  split <;> exact ⟨rfl, rfl⟩

theorem turn_off_spec : s.turn_off.client = s.client ∧ s.turn_off.status = s.status := by
  unfold turn_off
  split <;> exact ⟨rfl, rfl⟩

/-- The first line of `try_close`. -/
def quiet (s : Socket) : Socket := if s.client = [] then s.turn_off else s

theorem quiet_spec : s.quiet.client = s.client ∧ s.quiet.status = s.status := by
  unfold quiet
  split
  · exact turn_off_spec
  · exact ⟨rfl, rfl⟩

theorem try_close_eq : s.try_close =
    if s.status ≠ .HALFCLOSE then (s.quiet, false)
    else if s.client = [] then ({ s.quiet with status := .CLOSED, node := none, temp := none }, true)
    else (s.quiet, false) := by
  have heq : s.try_close = if s.quiet.status ≠ .HALFCLOSE then (s.quiet, false)
      else if s.quiet.client = [] then
        ({ s.quiet with status := .CLOSED, node := none, temp := none }, true)
      else (s.quiet, false) := rfl
  rw [heq, quiet_spec.1, quiet_spec.2]

/-- `try_close` keeps the queue, and closes only what was to be closed. -/
theorem try_close_spec :
    s.try_close.1.client = s.client ∧ s.try_close.1.status.isOpen = s.status.isOpen := by
  obtain ⟨hclient, hstatus⟩ := quiet_spec (s := s)
  rw [try_close_eq]
  split
  · exact ⟨hclient, by rw [hstatus]⟩
  · rename_i hhalf
    rw [not_not] at hhalf
    split
    · refine ⟨hclient, ?_⟩
      rw [hhalf]
      rfl
    · exact ⟨hclient, by rw [hstatus]⟩

end Socket

namespace Sending

/-- The bytes written and those that wait are the first of those pushed, and all of them
while the connection is open. -/
structure Ordered (p : Sending) : Prop where
  first : p.written ++ p.socket.client.flatten <+: p.pushed
  all : p.socket.status.isOpen = true → p.written ++ p.socket.client.flatten = p.pushed

/-- No writable event gives up the queue of an open connection. -/
def Drains (p : Sending) (e : SendEvent) : Prop :=
  match e with
  | .writable env => p.socket.status.isOpen = true → drops p.socket.client env = false
  | _ => True

instance (p : Sending) (e : SendEvent) : Decidable (p.Drains e) :=
  match e with
  | .writable _ => inferInstanceAs (Decidable (_ → _))
  | .push _ _ => .isTrue trivial
  | .close => .isTrue trivial
  | .force_close => .isTrue trivial
  | .reading _ => .isTrue trivial

variable {p p' : Sending}

/-- A socket that is not open and still holds the queue or less of it. -/
theorem Ordered.shut {s : Socket} (h : p.Ordered) (hopen : s.status.isOpen = false)
    (hclient : s.client = p.socket.client ∨ s.client = []) : Ordered { p with socket := s } := by
  refine ⟨?_, fun hs => absurd (hs.symm.trans hopen) (by decide)⟩
  rcases hclient with heq | heq
  · show p.written ++ s.client.flatten <+: p.pushed
    rw [heq]
    exact h.first
  · show p.written ++ s.client.flatten <+: p.pushed
    rw [heq, List.flatten_nil, List.append_nil]
    exact (List.prefix_append _ _).trans h.first

theorem Ordered.push (h : p.Ordered) (buffer : List UInt8) (env : List WriteResult) :
    Ordered ⟨(p.socket.mread_push buffer env).1, p.pushed ++ buffer,
      p.written ++ (p.socket.mread_push buffer env).2.1⟩ := by
  unfold Socket.mread_push
  by_cases hopen : p.socket.status.isOpen = true
  · rw [hopen, Bool.not_true, if_neg Bool.false_ne_true]
    have hall := h.all hopen
    by_cases hempty : p.socket.client = []
    · rw [if_pos hempty]
      rw [hempty, List.flatten_nil, List.append_nil] at hall
      have hfirst : (push_write buffer env).2 ++ (push_write buffer env).1.left <+: buffer :=
        push_write_prefix
      have hkeeps := @push_write_keeps env buffer
      rcases hrun : push_write buffer env with ⟨_ | rest | _, out⟩ <;> rw [hrun] at hfirst hkeeps <;>
        simp only
      · have heq : p.written ++ out ++ p.socket.client.flatten = p.pushed ++ buffer := by
          rw [hempty, hall, ← hkeeps nofun]
          simp [PushResult.left]
        exact ⟨heq ▸ List.prefix_rfl, fun _ => heq⟩
      · have heq : p.written ++ out ++
            ({ p.socket with client := [rest] } : Socket).turn_on.client.flatten =
              p.pushed ++ buffer := by
          rw [Socket.turn_on_spec.1, hall, ← hkeeps nofun]
          simp [PushResult.left]
        exact ⟨heq ▸ List.prefix_rfl, fun _ => heq⟩
      · obtain ⟨hclient, hstatus⟩ :=
          Socket.try_close_spec (s := { p.socket with status := .HALFCLOSE })
        refine ⟨?_, fun hs => absurd (hstatus.symm.trans hs) Bool.false_ne_true⟩
        rw [hclient, hempty, hall, List.flatten_nil, List.append_nil]
        have hout : out <+: buffer := (List.prefix_append out _).trans hfirst
        exact List.prefix_append_right_inj _ |>.mpr hout
    · rw [if_neg hempty]
      have heq : p.written ++ [] ++
          ({ p.socket with client := p.socket.client ++ [buffer] } : Socket).turn_on.client.flatten =
            p.pushed ++ buffer := by
        rw [Socket.turn_on_spec.1, ← hall]
        simp
      exact ⟨heq ▸ List.prefix_rfl, fun _ => heq⟩
  · rw [Bool.not_eq_true] at hopen
    rw [hopen, Bool.not_false, if_pos rfl]
    refine ⟨?_, fun hs => absurd (hs.symm.trans hopen) (by decide)⟩
    rw [List.append_nil]
    exact h.first.trans (List.prefix_append _ _)

theorem Ordered.writable (h : p.Ordered) {env : List WriteResult}
    (hdrain : p.Drains (.writable env)) :
    Ordered ⟨(p.socket.writable env).1, p.pushed, p.written ++ (p.socket.writable env).2.1⟩ := by
  unfold Socket.writable
  split
  · rw [List.append_nil]
    exact h
  · obtain ⟨hclient, hstatus⟩ := Socket.try_close_spec
      (s := { p.socket with client := (client_send p.socket.client env).1 })
    refine ⟨?_, fun hs => ?_⟩
    · rw [hclient, List.append_assoc]
      exact (List.prefix_append_right_inj _ |>.mpr client_send_prefix).trans h.first
    · have hopen : p.socket.status.isOpen = true := hstatus.symm.trans hs
      rw [hclient, List.append_assoc, client_send_keeps (hdrain hopen)]
      exact h.all hopen

theorem Ordered.exec {e : SendEvent} (h : p.Ordered) (hdrain : p.Drains e)
    (hexec : p.exec e = some p') : p'.Ordered := by
  cases e with
  | push buffer env =>
    obtain rfl := Option.some.inj hexec
    exact h.push buffer env
  | writable env =>
    obtain rfl := Option.some.inj hexec
    exact h.writable hdrain
  | close =>
    obtain rfl := Option.some.inj hexec
    unfold Socket.mread_close_client
    split
    · exact h
    · obtain ⟨hclient, hstatus⟩ :=
        Socket.try_close_spec (s := { p.socket with status := .HALFCLOSE })
      exact h.shut hstatus (.inl hclient)
  | force_close =>
    obtain rfl := Option.some.inj hexec
    unfold Socket.force_close_client
    split
    · exact h
    · obtain ⟨hclient, hstatus⟩ :=
        Socket.try_close_spec (s := { p.socket with client := [], status := .HALFCLOSE })
      exact h.shut hstatus (.inr hclient)
  | reading status =>
    simp only [Sending.exec] at hexec
    split at hexec
    · rename_i hopen
      obtain rfl := Option.some.inj hexec
      exact ⟨h.first, fun _ => h.all hopen.1⟩
    · cases hexec

theorem ordered : (system.restrict Drains).Inductive Ordered where
  init p h := by
    obtain ⟨-, hclient, hpushed, hwritten⟩ := h
    have heq : p.written ++ p.socket.client.flatten = p.pushed := by
      rw [hclient, hpushed, hwritten]
      rfl
    exact ⟨heq ▸ List.prefix_rfl, fun _ => heq⟩
  step _ _ _ _ h hstep := h.exec hstep.1 hstep.2

/-- **Outgoing bytes.** While no writable event gives up the queue of an open connection,
what was written is the beginning of what was pushed. -/
theorem written_prefix (h : (system.restrict Drains).Reachable p) : p.written <+: p.pushed :=
  (List.prefix_append _ _).trans (ordered.invariant p h).first

/-- A new connection. -/
def connected : Sending := ⟨⟨3, none, none, [], false, .CONNECTED⟩, [], []⟩

/-- A buffer that waits, is written in two parts, and the next one behind it. -/
theorem written_prefix_in_parts :
    ∃ p, (system.restrict Drains).Reachable p ∧ p.written = [1, 2, 3, 4] ∧
      p.written <+: p.pushed := by
  obtain ⟨p, hreach, hp⟩ := TSys.reachable_of_exec (p := fun p => p.written = [1, 2, 3, 4])
    (TSys.restrictExec_step (C := Drains) fun _ _ _ h => h)
    (show (system.restrict Drains).init connected from ⟨rfl, rfl, rfl, rfl⟩)
    (l := [.push [1, 2, 3] [.wrote 1, .EWOULDBLOCK], .writable [.EINTR, .wrote 2],
      .push [4] [.wrote 1]]) (by decide)
  exact ⟨p, hreach, of_decide_eq_true hp, written_prefix hreach⟩

/-- A write that fails on a writable event: the queue is gone, the socket is open, and the
next buffer is written. -/
theorem written_skips :
    ∃ p, system.Reachable p ∧ p.socket.status.isOpen = true ∧ ¬p.written <+: p.pushed := by
  obtain ⟨p, hreach, hp⟩ := TSys.reachable_of_exec
    (p := fun p => p.socket.status.isOpen ∧ ¬p.written <+: p.pushed) (fun _ _ _ h => h)
    (show system.init connected from ⟨rfl, rfl, rfl, rfl⟩)
    (l := [.push [1] [.EWOULDBLOCK], .writable [.failed], .push [2] [.wrote 1]]) (by decide)
  exact ⟨p, hreach, of_decide_eq_true hp⟩

end Sending

end DnServer.Gate
