import DnServer.Connection.Socket
import DnServer.Redis.Splitter

/-!
# Requests and the reply stream

Plain requests are asked and the bytes of the replies arrive in chunks, in any
order that brings no reply before its request. Whatever the chunks are, the
responses sent are those for the replies complete by then, one for each request
in order. An integer reply goes through a double on the way, so it arrives as it
was sent only if a double holds it.

The buffer's counts stay `int`s: a chunk is pushed only where it fits with what is unread, and
no reply has a bulk that is too long, so the buffer is that of `lua-socket.c` throughout.

* `resume_drain`: what the coroutine does with a chunk is what the decoder drains from
  the unread bytes.
* `answers_iff_exact`: the responses are those for the replies complete by then, and
  equal what was sent where no number is rounded (`integer_rounded`).
-/

namespace DnServer.Redis

open DnServer.Lib
open DnServer.Lib.Handler (after)

/-! ## `resume` as draining -/

namespace Client

/-- The client with its buffer and its coroutine elsewhere. -/
def atPoint (object : Buffer) (p : Point) (c : Client) : Client :=
  { c with socket := { c.socket with object := object }, split_co := p }

/-- What comes of a call, with buffer and coroutine elsewhere. -/
def movedTo (object : Buffer) (p : Point) :
    Except (String × Client) Client → Except (String × Client) Client
  | .ok c => .ok (c.atPoint object p)
  | .error (e, c) => .error (e, c.atPoint object p)

/-- Responses look neither at the socket nor at the coroutine. -/
theorem batch_dec_atPoint (c : Client) (address : Address) (object : Buffer) (p : Point) :
    (c.atPoint object p).batch_dec address = movedTo object p (c.batch_dec address) := by
  rcases hbc : c.batch_count.get? address with _ | bc
  · simp only [batch_dec, atPoint, hbc]
    rfl
  · simp only [batch_dec, atPoint, hbc, Handler.index_some, Handler.ok_bind]
    by_cases h1 : bc = 1
    · simp only [if_pos h1]
      rcases c.batch_mode.get? address with _ | _ | _ | session <;> rfl
    · simp only [if_neg h1]
      rfl

theorem response_atPoint (c : Client) (suc : Bool) (value : Value) (object : Buffer) (p : Point) :
    (c.atPoint object p).response suc value = movedTo object p (c.response suc value) := by
  rcases hq : c.request_queue with _ | ⟨reply, queue⟩
  · simp only [response, atPoint, hq, movedTo]
  · simp only [response, atPoint, hq]
    rcases reply.batch with _ | _ | _ | session
    · rfl
    · rw [← batch_dec_atPoint]
      cases suc with
      | false => rfl
      | true =>
        simp only [if_true]
        rcases c.batch_reply.get? reply.address with _ | _ | _ <;> rfl
    · rw [← batch_dec_atPoint]
      cases suc <;> rfl
    · rfl

theorem answer_atPoint (c : Client) (a : Option (Bool × Value)) (object : Buffer) (p : Point) :
    (c.atPoint object p).answer a = movedTo object p (c.answer a) := by
  cases a with
  | none => rfl
  | some r => exact c.response_atPoint r.1 r.2 object p

/-- The calls of `response` one after the other. -/
def responses (c : Client) (l : List (Bool × Value)) : Except (String × Client) Client :=
  l.foldlM (fun c r => c.response r.1 r.2) c

theorem responses_atPoint (c : Client) (l : List (Bool × Value)) (object : Buffer) (p : Point) :
    (c.atPoint object p).responses l = movedTo object p (c.responses l) := by
  induction l generalizing c with
  | nil => rfl
  | cons r l ih =>
    simp only [responses, List.foldlM_cons, response_atPoint]
    cases c.response r.1 r.2 with
    | error e => rfl
    | ok c₁ => exact ih c₁

/-- Resumed with enough rounds, the coroutine makes the calls of `response` that
draining the unread bytes gives. -/
theorem resume_drain {n : ℕ} {c d : Client} (hn : c.socket.object.unread.length < n)
    (hdead : (splitter.drain c.split_co c.socket.object.unread).state ≠ .dead)
    (h : c.responses (splitter.drain c.split_co c.socket.object.unread).out = .ok d) :
    ∃ object : Buffer, object.buffer = c.socket.object.buffer ∧
      object.unread = (splitter.drain c.split_co c.socket.object.unread).rest ∧
      resume n c = .ok (d.atPoint object
        (splitter.drain c.split_co c.socket.object.unread).state) := by
  induction n generalizing c d with
  | zero => omega
  | succ n ih =>
    have hfetch := c.socket.object.fetch_eq c.split_co.wants
    simp only [resume]
    cases hf : c.socket.object.fetch c.split_co.wants with
    | none =>
      rw [hf, Option.map_none] at hfetch
      have hstep : splitter.step c.split_co c.socket.object.unread = none := by
        show Option.map _ _ = _
        rw [← hfetch]
        rfl
      rw [splitter.drain_of_none hstep] at hdead h ⊢
      obtain rfl := Except.ok.inj h
      exact ⟨c.socket.object, rfl, rfl, if_neg hdead⟩
    | some r =>
      obtain ⟨data, object⟩ := r
      rw [hf, Option.map_some] at hfetch
      have hstep : splitter.step c.split_co c.socket.object.unread =
          some ⟨(c.split_co.resumed data).1.toList, (c.split_co.resumed data).2,
            object.unread⟩ := by
        show Option.map _ _ = _
        rw [← hfetch]
        rfl
      have hlt := splitter.consumes hstep
      rw [splitter.drain_of_step hstep] at hdead h ⊢
      simp only at hdead h hlt ⊢
      -- the call made in this stretch, and the client it leaves
      obtain ⟨c₁, hc₁, hrest⟩ : ∃ c₁, c.answer (c.split_co.resumed data).1 = .ok c₁ ∧
          c₁.responses (splitter.drain (c.split_co.resumed data).2 object.unread).out =
            .ok d := by
        rcases hturn : (c.split_co.resumed data).1 with _ | ⟨suc, value⟩
        · rw [hturn] at h
          exact ⟨c, rfl, h⟩
        · rw [hturn] at h
          simp only [responses, Option.toList_some, List.singleton_append, List.foldlM_cons] at h
          show ∃ c₁, c.response suc value = .ok c₁ ∧ _
          cases hres : c.response suc value with
          | error e =>
            rw [hres] at h
            cases h
          | ok c₁ =>
            rw [hres] at h
            exact ⟨c₁, rfl, h⟩
      have hmoved : ({ c with socket := { c.socket with object := object } } : Client).answer
          (c.split_co.resumed data).1 = .ok (c₁.atPoint object c.split_co) := by
        have := c.answer_atPoint (c.split_co.resumed data).1 object c.split_co
        rw [hc₁] at this
        exact this
      have hmoved' : (c₁.atPoint object (c.split_co.resumed data).2).responses
          (splitter.drain (c.split_co.resumed data).2 object.unread).out =
            .ok (d.atPoint object (c.split_co.resumed data).2) := by
        rw [responses_atPoint, hrest]
        rfl
      obtain ⟨object', hblock, hunread, hresume⟩ :=
        ih (c := c₁.atPoint object (c.split_co.resumed data).2)
          (d := d.atPoint object (c.split_co.resumed data).2)
          (by
            show object.unread.length < n
            omega)
          hdead hmoved'
      refine ⟨object', hblock.trans (Buffer.fetch_buffer hf), hunread, ?_⟩
      rw [hmoved]
      exact hresume

/-- A chunk makes the calls of `response` that draining what is unread with it gives. -/
theorem unpack_drain {c c' : Client} {msg : Bytes}
    (hdead : (splitter.drain c.split_co (c.socket.object.unread ++ msg)).state ≠ .dead)
    (h : c.responses (splitter.drain c.split_co (c.socket.object.unread ++ msg)).out = .ok c') :
    ∃ object : Buffer, object.buffer = (c.socket.object.push msg).buffer ∧
      object.unread = (splitter.drain c.split_co (c.socket.object.unread ++ msg)).rest ∧
      c.unpack msg = .ok (c'.atPoint object
        (splitter.drain c.split_co (c.socket.object.unread ++ msg)).state) := by
  rw [← Buffer.unread_push] at hdead h ⊢
  have hres := c.responses_atPoint (splitter.drain c.split_co
    (c.socket.object.push msg).unread).out (c.socket.object.push msg) c.split_co
  rw [h] at hres
  exact resume_drain (c := c.atPoint (c.socket.object.push msg) c.split_co)
    (d := c'.atPoint (c.socket.object.push msg) c.split_co) (Nat.lt_succ_self _) hdead hres

/-! ## Plain requests -/

/-- The response to a request that belongs to no batch. -/
def plainResponse (q : Request) (r : Bool × Value) : Response :=
  ⟨q.address, q.session, r.1, .value r.2⟩

/-- The oldest requests are answered in order. -/
theorem responses_plain {c : Client} {queue rest : List Request} {l : List (Bool × Value)}
    (hq : c.request_queue = queue ++ rest) (hl : queue.length = l.length)
    (hplain : ∀ q ∈ queue, q.batch = none) :
    c.responses l = .ok { c with
      request_queue := rest
      out := c.out ++ List.zipWith plainResponse queue l } := by
  induction l generalizing c queue with
  | nil =>
    obtain rfl := List.length_eq_zero_iff.mp hl
    rw [List.nil_append] at hq
    rw [← hq, List.zipWith_nil_left, List.append_nil]
    rfl
  | cons r l ih =>
    cases queue with
    | nil => cases hl
    | cons q queue =>
      have hr : c.response r.1 r.2 = .ok { c with
          request_queue := queue ++ rest
          out := c.out ++ [plainResponse q r] } := by
        simp only [response, hq, List.cons_append, hplain q List.mem_cons_self]
        rfl
      rw [responses, List.foldlM_cons, hr, Handler.ok_bind]
      show responses _ l = _
      rw [ih (show _ = queue ++ rest from rfl) (Nat.succ.inj hl)
          fun x hx => hplain x (List.mem_cons_of_mem _ hx),
        List.append_assoc]
      rfl

end Client

/-! ## The link -/

/-- The client with an open connection on which nothing was sent or received. -/
def Client.connected : Client := { Client.start with socket := ⟨some 0, .new, [], []⟩ }

/-- The client, the requests made of it and the bytes pushed to it so far. -/
structure Link where
  client : Client
  asked : List Request
  received : Bytes

inductive LinkEvent
  /-- A service calls with a command. -/
  | ask (session : Session) (address : Address) (message : List Bytes)
  /-- The connection service pushes what it read. -/
  | chunk (msg : Bytes)
  deriving DecidableEq, Repr

namespace Link

def start : Link := ⟨.connected, [], []⟩

/-- The server answers `rs`: what is pushed is the next part of their bytes, no reply is
complete before its request was made, and the bytes that are then unread fit an `int`. -/
def exec (rs : List Reply) (s : Link) : LinkEvent → Option Link
  | .ask session address message =>
    some { s with
      client := after (s.client.lua session address message true)
      asked := s.asked ++ [⟨session, address, compose_message message, none⟩] }
  | .chunk msg =>
    if msg ≠ [] ∧ s.received ++ msg <+: stream rs ∧
        (complete rs (s.received ++ msg)).length ≤ s.asked.length ∧
        s.client.socket.object.unread.length + msg.length < 2147483648 then
      some { s with client := after (s.client.unpack msg), received := s.received ++ msg }
    else none

/-- The link to a server that answers `rs`. -/
def system (rs : List Reply) : TSys Link LinkEvent where
  init s := s = start
  step s e t := exec rs s e = some t

/-- What holds between two events. -/
structure Inv (rs : List Reply) (s : Link) : Prop where
  received : s.received <+: stream rs
  small : Connection.Small s.client.socket.object
  answered : (complete rs s.received).length ≤ s.asked.length
  point : s.client.split_co = (splitter.drain .top s.received).state
  unread : s.client.socket.object.unread = (splitter.drain .top s.received).rest
  queue : s.client.request_queue = s.asked.drop (complete rs s.received).length
  plain : ∀ q ∈ s.asked, q.batch = none
  mode : s.client.batch_mode = .empty
  open_ : s.client.socket.fd.isSome
  out : s.client.out = List.zipWith Client.plainResponse
    (s.asked.take (complete rs s.received).length) ((complete rs s.received).map Reply.decoded)

theorem complete_nil (rs : List Reply) : complete rs [] = [] := by
  cases rs with
  | nil => rfl
  | cons r rs =>
    simp only [complete, List.prefix_nil]
    rw [if_neg]
    cases r <;> exact List.cons_ne_nil _ _

theorem Inv.start (rs : List Reply) : Inv rs start where
  received := List.nil_prefix
  small := show 0 < 2147483648 by decide
  answered := by
    show (complete rs []).length ≤ _
    rw [complete_nil]
    exact Nat.zero_le _
  point := rfl
  unread := rfl
  queue := List.drop_nil.symm
  plain := by simp [Link.start]
  mode := rfl
  open_ := rfl
  out := by
    show [] = List.zipWith _ (List.take _ []) _
    rw [List.take_nil, List.zipWith_nil_left]

/-- A plain request is written and queued. -/
theorem lua_plain {c : Client} (hm : c.batch_mode = .empty) (hfd : c.socket.fd.isSome)
    (session : Session) (address : Address) (message : List Bytes) :
    c.lua session address message true = .ok { c with
      socket := { c.socket with sent := c.socket.sent ++ [compose_message message] }
      request_queue := c.request_queue ++ [⟨session, address, compose_message message, none⟩] } := by
  simp only [Client.lua, Socket.write_taken hfd, hm]
  rfl

theorem Inv.ask {rs : List Reply} {s : Link} (h : Inv rs s) (session : Session)
    (address : Address) (message : List Bytes) :
    Inv rs { s with
      client := after (s.client.lua session address message true)
      asked := s.asked ++ [⟨session, address, compose_message message, none⟩] } := by
  rw [lua_plain h.mode h.open_, Handler.after_ok]
  have hle := h.answered
  exact {
    received := h.received
    small := h.small
    answered := by
      show _ ≤ (s.asked ++ [_]).length
      rw [List.length_append]
      exact hle.trans (Nat.le_add_right _ _)
    point := h.point
    unread := h.unread
    queue := by
      show s.client.request_queue ++ _ = _
      rw [h.queue, List.drop_append_of_le_length hle]
    plain := by
      intro q hq
      rcases List.mem_append.mp hq with hq | hq
      · exact h.plain q hq
      · rw [List.mem_singleton.mp hq]
    mode := h.mode
    open_ := h.open_
    out := by
      show s.client.out = List.zipWith _ ((s.asked ++ [_]).take (complete rs s.received).length) _
      rw [List.take_append_of_le_length hle]
      exact h.out }

theorem Inv.chunk {rs : List Reply} (hrs : ∀ r ∈ rs, r.WellFormed) {s : Link} (h : Inv rs s)
    {msg : Bytes} (hmsg : s.received ++ msg <+: stream rs)
    (hle : (complete rs (s.received ++ msg)).length ≤ s.asked.length)
    (hfits : s.client.socket.object.unread.length + msg.length < 2147483648) :
    Inv rs { s with
      client := after (s.client.unpack msg), received := s.received ++ msg } := by
  -- what draining gives for the bytes received before, and for those with the chunk
  have hbefore := drain_complete hrs h.received
  have hafter := drain_complete hrs hmsg
  have hdead := drain_not_dead hrs hmsg
  have happ := splitter.drain_append .top s.received msg
  rw [← h.point, ← h.unread] at happ
  generalize hnew : splitter.drain s.client.split_co (s.client.socket.object.unread ++ msg) = new
    at happ
  rw [happ] at hafter hdead
  simp only [hbefore] at hafter
  have hlen : (complete rs (s.received ++ msg)).length =
      (complete rs s.received).length + new.out.length := by
    have := congrArg List.length hafter
    simpa using this.symm
  have hqueue : s.client.request_queue =
      (s.asked.drop (complete rs s.received).length).take new.out.length ++
        s.asked.drop (complete rs (s.received ++ msg)).length := by
    rw [h.queue, hlen, ← List.drop_drop, List.take_append_drop]
  have hres := Client.responses_plain (l := new.out) hqueue
    (by rw [List.length_take, List.length_drop]; omega)
    fun q hq => h.plain q (List.mem_of_mem_drop (List.mem_of_mem_take hq))
  rw [← hnew] at hres hdead
  obtain ⟨object, hblock, hunread, hunpack⟩ := Client.unpack_drain hdead hres
  rw [hunpack, Handler.after_ok]
  rw [hnew] at hunread ⊢
  exact {
    received := hmsg
    small := (congrArg List.length hblock).trans_lt (h.small.push hfits).2
    answered := hle
    point := by rw [happ]; rfl
    unread := by rw [happ]; exact hunread
    queue := rfl
    plain := h.plain
    mode := h.mode
    open_ := h.open_
    out := by
      show s.client.out ++ _ = List.zipWith _ (s.asked.take (complete rs (s.received ++ msg)).length) _
      rw [← hafter, hlen, List.take_add, List.zipWith_append, ← h.out]
      rw [List.length_take, List.length_map]
      have := h.answered
      omega }

theorem inv_reachable {rs : List Reply} (hrs : ∀ r ∈ rs, r.WellFormed) {s : Link}
    (hs : (system rs).Reachable s) : Inv rs s := by
  apply TSys.Inductive.invariant (P := Inv rs) _ s hs
  constructor
  · rintro s rfl
    exact Inv.start rs
  · intro s e t _ h hstep
    cases e with
    | ask session address message =>
      obtain rfl := Option.some.inj hstep
      exact h.ask session address message
    | chunk msg =>
      obtain ⟨⟨-, hmsg, hle, hfits⟩, ht⟩ := Option.ite_none_right_eq_some.mp hstep
      obtain rfl := Option.some.inj ht
      exact h.chunk hrs hmsg hle hfits

/-! ## Main result -/

/-- The response a request should get to a reply. -/
def answerTo (q : Request) (r : Reply) : Response := Client.plainResponse q r.value

/-- Two ways to answer agree on what is answered exactly if they agree on each reply. -/
theorem zipWith_eq_iff {l : List Request} {rs : List Reply} (h : rs.length ≤ l.length) :
    List.zipWith Client.plainResponse l (rs.map Reply.decoded) = List.zipWith answerTo l rs ↔
      ∀ r ∈ rs, r.IntExact := by
  induction rs generalizing l with
  | nil => simp
  | cons r rs ih =>
    cases l with
    | nil => cases h
    | cons q l =>
      have hhead : Client.plainResponse q r.decoded = answerTo q r ↔ r.IntExact := by
        rw [← Reply.decoded_eq_value_iff]
        constructor
        · intro heq
          obtain ⟨-, -, hsuc, hval⟩ := Response.mk.inj heq
          exact Prod.ext hsuc (Packed.value.inj hval)
        · intro heq
          rw [answerTo, heq]
      rw [List.map_cons, List.zipWith_cons_cons, List.zipWith_cons_cons, List.cons.injEq, hhead,
        ih (Nat.le_of_succ_le_succ h), List.forall_mem_cons]

/-- Whatever the chunks were: each request whose reply is complete has had one response,
in order, and the others none. The responses carry what the replies say exactly when
the integers among these replies are numbers a double holds. -/
theorem answers_iff_exact {rs : List Reply} (hrs : ∀ r ∈ rs, r.WellFormed ∧ r.NoNullElement)
    {s : Link} (hs : (system rs).Reachable s) :
    s.client.out = List.zipWith answerTo s.asked (complete rs s.received) ↔
      ∀ r ∈ complete rs s.received, r.IntExact := by
  have h := inv_reachable (fun r hr => (hrs r hr).1) hs
  have hle := h.answered
  have htake : (s.asked.take (complete rs s.received).length).length =
      (complete rs s.received).length := by
    rw [List.length_take]
    omega
  have hall : List.zipWith answerTo s.asked (complete rs s.received) =
      List.zipWith answerTo (s.asked.take (complete rs s.received).length)
        (complete rs s.received) := by
    refine List.zipWith_eq_zipWith_take_min.trans ?_
    rw [Nat.min_eq_right hle, List.take_length]
  rw [h.out, hall]
  exact zipWith_eq_iff htake.ge

/-- The end of a run that `p` is true of. -/
theorem exists_reachable (rs : List Reply) {l : List LinkEvent} {p : Link → Bool}
    (h : (TSys.execAll (exec rs) start l).any p = true) :
    ∃ s, (system rs).Reachable s ∧ p s = true :=
  TSys.reachable_of_exec (T := system rs) (fun _ _ _ h => h) rfl h

/-- A bulk that is itself a CRLF, cut within each of its line ends. -/
theorem answers_iff_exact_split : ∃ s : Link, (system [.bulk CRLF]).Reachable s ∧
    (complete [.bulk CRLF] s.received).length = 1 ∧
    s.client.out = List.zipWith answerTo s.asked (complete [.bulk CRLF] s.received) := by
  obtain ⟨s, hs, hp⟩ := exists_reachable [.bulk CRLF]
    (l := [.ask 1 2 [[71, 69, 84], [107]], .chunk [36, 50, 13], .chunk [10, 13], .chunk [10, 13],
      .chunk [10]])
    (p := fun s => decide (complete [.bulk CRLF] s.received = [.bulk CRLF])) (by decide)
  have hcomplete := of_decide_eq_true hp
  refine ⟨s, hs, by rw [hcomplete]; rfl, (answers_iff_exact ?_ hs).mpr ?_⟩
  · intro r hr
    obtain rfl := List.mem_singleton.mp hr
    exact ⟨(by decide : Reply.FitsBulk CRLF), trivial⟩
  · intro r hr
    rw [hcomplete] at hr
    obtain rfl := List.mem_singleton.mp hr
    trivial

/-- `:9007199254740993` is answered with 9007199254740992. -/
theorem integer_rounded : (Reply.integer 9007199254740993).WellFormed ∧
    ∃ s : Link, (system [.integer 9007199254740993]).Reachable s ∧
      s.received = stream [.integer 9007199254740993] ∧
      s.client.out ≠ List.zipWith answerTo s.asked
        (complete [.integer 9007199254740993] s.received) := by
  refine ⟨⟨by norm_num, by norm_num⟩, ?_⟩
  obtain ⟨s, hs, hp⟩ := exists_reachable [.integer 9007199254740993]
    (l := [.ask 1 2 [[73, 78, 67, 82], [107]], .chunk (stream [.integer 9007199254740993])])
    (p := fun s => decide (s.received = stream [.integer 9007199254740993] ∧
      s.client.out ≠ List.zipWith answerTo s.asked
        (complete [.integer 9007199254740993] s.received))) (by decide)
  exact ⟨s, hs, of_decide_eq_true hp⟩

end Link

end DnServer.Redis
