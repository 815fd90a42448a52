import DnServer.Lib.Tokens
import DnServer.Skynet.Buffers

/-!
# Whose buffer it is

A service may free and send without a copy what is its own, and a callback returns a true value
just when it has taken the data of its message over, and then does not forward the message. While
all services keep to that, each buffer is with one service, has been freed once or is lost: no
buffer is freed twice, or used when it has been freed, whatever the order in which they run.

* `adds_exec`: every operation hands the pointers it is given on, one count for all
  (`Adds`): what a send does without a service included.
* `accounted_of_careful`: so a buffer is counted once as long as nobody gives away what
  is not its own.
-/

namespace DnServer.Skynet

open DnServer.Lib

namespace Buffers

/-! ## Where a buffer is -/

/-- How often the message that is dispatched points to buffer `b`; what the service has taken over
is its own. -/
def Service.dispatching (s : Service) (b : ℕ) : ℕ :=
  match s.msg with
  | some (msg, false) => msg.data.pointers.count b
  | _ => 0

/-- How often buffer `b` is with the service: in its queue, in its callback or among its own. -/
def Service.holds (b : ℕ) (s : Service) : ℕ :=
  (s.queue.messages.map fun msg => msg.data.pointers.count b).sum + s.dispatching b +
    (s.kept.map fun data => data.pointers.count b).sum

namespace Node

def held (n : Node) (b : ℕ) : ℕ := (n.services.map (Service.holds b)).sum

/-- Freed, or lost. -/
def gone (n : Node) (b : ℕ) : ℕ := n.freed.count b + n.lost.count b

/-- Each buffer that was allocated is with one service, was freed once or is lost. -/
def Accounted (n : Node) : Prop := Tokens.Balanced (fun b => n.held b + n.gone b) n.next

/-- The data is the service's own. -/
def Owns (n : Node) (q : ℕ) (data : Data) : Prop :=
  data = .null ∨ ∃ s ∈ n.services[q]?, data ∈ s.kept

instance (n : Node) (q : ℕ) (data : Data) : Decidable (n.Owns q data) :=
  inferInstanceAs (Decidable (_ ∨ _))

/-- What a service may do with a buffer, and what its callback returns. -/
def Careful (n : Node) : Event → Prop
  | .free q data => n.Owns q data
  | .send q _ a | .sendname q _ a => n.Owns q a.data.given
  | .callback_returns q reserve => ∀ s ∈ n.services[q]?, ∀ msg ∈ s.msg,
    reserve = msg.2 ∧ (msg.2 = true → s.forward = 0)
  | _ => True

instance (n : Node) (e : Event) : Decidable (n.Careful e) := by
  unfold Careful
  split <;> infer_instance

end Node

/-! ## What the operations add -/

variable {n n' m : Node} {q : ℕ} {s : Service} {data : Data} {msg : Message Data} {b : ℕ}

namespace Node

/-- The data has been put somewhere, and what was allocated meanwhile. -/
def Adds (n n' : Node) (data : Data) : Prop :=
  ∃ k, n'.next = n.next + k ∧ ∀ b, n'.held b + n'.gone b =
    n.held b + n.gone b + data.pointers.count b + if n.next ≤ b ∧ b < n.next + k then 1 else 0

theorem Adds.of_same (hnext : n'.next = n.next)
    (hcount : ∀ b, n'.held b + n'.gone b = n.held b + n.gone b + data.pointers.count b) :
    Adds n n' data := by
  refine ⟨0, hnext, fun b => ?_⟩
  rw [hcount b, if_neg (by omega), Nat.add_zero]

/-- Before the data was put somewhere it was with a service. -/
theorem Adds.of_removed (h : Adds m n' data) (hnext : m.next = n.next)
    (hcount : ∀ b, n.held b + n.gone b = m.held b + m.gone b + data.pointers.count b) :
    Adds n n' .null := by
  obtain ⟨k, hk, hadds⟩ := h
  rw [hnext] at hk hadds
  refine ⟨k, hk, fun b => ?_⟩
  rw [hadds b, ← hcount b]
  rfl

/-- The data is new. -/
theorem Adds.of_malloc (h : Adds n.malloc.1 n' n.malloc.2) : Adds n n' .null := by
  obtain ⟨k, hk, hadds⟩ := h
  refine ⟨k + 1, ?_, fun b => ?_⟩
  · rw [hk]
    show n.next + 1 + k = n.next + (k + 1)
    omega
  · rw [hadds b]
    show n.held b + n.gone b + [n.next].count b +
      (if n.next + 1 ≤ b ∧ b < n.next + 1 + k then 1 else 0) = n.held b + n.gone b + 0 + _
    rw [List.count_singleton]
    simp only [beq_iff_eq]
    split <;> split <;> split <;> omega

theorem Adds.accounted (h : Adds n n' .null) (hn : n.Accounted) : n'.Accounted := by
  obtain ⟨k, hk, hadds⟩ := h
  show Tokens.Balanced _ _
  rw [hk]
  exact hn.made hadds

theorem gone_free (n : Node) (data : Data) (b : ℕ) :
    (n.free data).gone b = n.gone b + data.pointers.count b := by
  cases data with
  | null => rfl
  | buffer b' =>
    show (b' :: n.freed).count b + n.lost.count b = n.freed.count b + n.lost.count b + [b'].count b
    rw [List.count_cons, List.count_cons, List.count_nil]
    omega
  | remote b' _ message =>
    show (b' :: n.freed).count b + (message.pointers ++ n.lost).count b =
      n.freed.count b + n.lost.count b + (b' :: message.pointers).count b
    rw [List.count_cons, List.count_cons, List.count_append]
    omega

theorem free_next (n : Node) (data : Data) : (n.free data).next = n.next := by
  cases data <;> rfl

theorem free_services (n : Node) (data : Data) : (n.free data).services = n.services := by
  cases data <;> rfl

theorem adds_free (n : Node) (data : Data) : Adds n (n.free data) data := by
  refine .of_same (free_next n data) fun b => ?_
  rw [gone_free]
  unfold held
  rw [free_services, Nat.add_assoc]

theorem adds_lose (n : Node) (data : Data) : Adds n (n.lose data) data := by
  refine .of_same rfl fun b => ?_
  show n.held b + (n.freed.count b + (data.pointers ++ n.lost).count b) =
    n.held b + (n.freed.count b + n.lost.count b) + data.pointers.count b
  rw [List.count_append]
  omega

/-- A service changes. -/
theorem held_modify (hs : n.services[q]? = some s) (f : Service → Service) (b : ℕ) :
    (n.modify q f).held b + s.holds b = n.held b + (f s).holds b :=
  Tokens.sum_modify (Service.holds b) f hs

theorem modify_of_none (hs : n.services[q]? = none) (f : Service → Service) : n.modify q f = n := by
  have hservices : n.services.modify q f = n.services :=
    List.modify_eq_self (List.getElem?_eq_none_iff.mp hs)
  unfold Node.modify
  rw [hservices]

/-- It holds what it has held before. -/
theorem adds_modify {f : Service → Service} (hf : ∀ s b, (f s).holds b = s.holds b) :
    Adds n (n.modify q f) .null := by
  refine .of_same rfl fun b => ?_
  show (n.modify q f).held b + n.gone b = n.held b + n.gone b + 0
  cases hs : n.services[q]? with
  | none => rw [modify_of_none hs, Nat.add_zero]
  | some s =>
    have hheld := held_modify hs f b
    rw [hf s b] at hheld
    omega

theorem sum_push (d : Deque Data) (msg : Message Data) (b : ℕ) :
    ((d.push msg).messages.map fun msg => msg.data.pointers.count b).sum =
      (d.messages.map fun msg => msg.data.pointers.count b).sum + msg.data.pointers.count b := by
  unfold Deque.push
  split
  · simp only [List.map_cons, List.sum_cons]
    omega
  · simp

theorem adds_context_send (hq : q < n.services.length) (msg : Message Data) :
    Adds n (n.context_send q msg) msg.data := by
  refine .of_same rfl fun b => ?_
  have hheld := held_modify (List.getElem?_eq_getElem hq)
    (fun s => { s with queue := s.queue.push msg }) b
  have hpush := sum_push n.services[q].queue msg b
  show (n.context_send q msg).held b + n.gone b = _
  unfold context_send
  simp only [Service.holds, Service.dispatching] at hheld
  omega

theorem grab_lt {handle : ℕ} (h : n.grab handle = some q) : q < n.services.length :=
  (List.findIdx?_eq_some_iff_getElem.mp h).1

theorem adds_context_push {handle : ℕ} (h : n.context_push handle msg = some n') :
    Adds n n' msg.data := by
  obtain ⟨q, hq, rfl⟩ := Option.map_eq_some_iff.mp h
  exact adds_context_send (grab_lt hq) msg

theorem adds_push_or_free (n : Node) (handle : ℕ) (msg : Message Data) :
    Adds n (n.push_or_free handle msg) msg.data := by
  unfold push_or_free
  cases h : n.context_push handle msg with
  | some n' => exact adds_context_push h
  | none => exact adds_free n msg.data

/-- The envelope is new, the data in it is not. -/
theorem adds_harbor_send {destination : Recipient} {source type : ℕ} {session : ℤ}
    (h : n.harbor_send destination source session type data = some n') : Adds n n' data := by
  unfold harbor_send at h
  split at h
  · cases h
  · rename_i hok
    obtain rfl := Option.some.inj h
    obtain ⟨k, hk, hadds⟩ := adds_context_send (n := { n with next := n.next + 1 }) (q := n.REMOTE)
      (not_le.mp fun hle => hok (.inr (.inr hle)))
      ⟨source, session, type, .remote n.next destination data⟩
    obtain rfl : k = 0 := Nat.add_left_cancel hk.symm
    refine ⟨1, hk, fun b => ?_⟩
    rw [hadds b]
    show n.held b + n.gone b + (n.next :: data.pointers).count b + _ = _
    rw [List.count_cons]
    simp only [beq_iff_eq]
    split <;> split <;> split <;> omega

theorem adds_send_message {des : ℕ} (h : n.send_message des msg = some n') :
    Adds n n' msg.data := by
  unfold send_message at h
  split at h
  · exact adds_harbor_send h
  · obtain rfl := Option.some.inj h
    exact adds_push_or_free n des msg

theorem adds_send_filtered {destination : ℕ} {a : Args} {session : ℤ}
    (h : n.send_filtered q destination a session data = some n') : Adds n n' data := by
  unfold send_filtered at h
  dsimp only at h
  split at h
  · obtain rfl := Option.some.inj h
    exact adds_lose n data
  · split at h
    · exact adds_harbor_send h
    · obtain rfl := Option.some.inj h
      exact adds_push_or_free n _ _

theorem Adds.trans (h : Adds n m .null) (h' : Adds m n' data) : Adds n n' data := by
  obtain ⟨k, hk, hadds⟩ := h
  obtain ⟨k', hk', hadds'⟩ := h'
  refine ⟨k + k', by omega, fun b => ?_⟩
  rw [hadds' b, hadds b, hk]
  show n.held b + n.gone b + 0 + _ + _ + _ = _
  split <;> split <;> split <;> omega

/-- Before it looks at the data `_filter_args` changes no more than a session counter. -/
theorem filter_args_cases {a : Args} {session : ℤ}
    (h : n.filter_args q a = some (m, session, data)) :
    ∃ n₀, (n₀ = n ∨ n₀ = n.modify q fun s => { s with session_id := s.session_id + 1 }) ∧
      n₀.filter_data a.data = (m, data) := by
  unfold filter_args at h
  split at h
  · cases h
  obtain ⟨⟨n₀, session₀⟩, hsession, hdata⟩ := Option.map_eq_some_iff.mp h
  obtain ⟨hm, hrest⟩ := Prod.mk.inj hdata
  refine ⟨n₀, ?_, Prod.ext hm (Prod.mk.inj hrest).2⟩
  unfold filter_session at hsession
  split at hsession
  · split at hsession
    · cases hsession
    · obtain ⟨s, -, hs⟩ := Option.map_eq_some_iff.mp hsession
      exact .inr (Prod.mk.inj hs).1.symm
  · exact .inl (Prod.mk.inj (Option.some.inj hsession)).1.symm

/-- What `_filter_args` copies is new, what it passes on is not. -/
theorem Adds.of_filtered {a : Args} {session : ℤ} (h : Adds m n' data)
    (hfilter : n.filter_args q a = some (m, session, data)) : Adds n n' a.data.given := by
  obtain ⟨n₀, hsession, hdata⟩ := filter_args_cases hfilter
  have hbefore : Adds n n₀ .null := by
    rcases hsession with rfl | rfl
    · exact .of_same rfl fun _ => rfl
    · exact adds_modify fun _ _ => rfl
  obtain ⟨hm, hd⟩ := Prod.mk.inj hdata
  cases hsent : a.data with
  | null =>
    rw [hsent] at hm hd
    rw [← hm, ← hd] at h
    exact hbefore.trans h
  | copy =>
    rw [hsent] at hm hd
    rw [← hm, ← hd] at h
    exact hbefore.trans h.of_malloc
  | dontcopy data =>
    rw [hsent] at hm hd
    rw [← hm, ← hd] at h
    exact hbefore.trans h

theorem adds_send {destination : ℕ} {a : Args} (h : n.send q destination a = some n') :
    Adds n n' a.data.given := by
  obtain ⟨⟨m, session, data⟩, hfilter, hsend⟩ := Option.bind_eq_some_iff.mp h
  exact (adds_send_filtered hsend).of_filtered hfilter

theorem adds_sendname {addr : List Char} {a : Args} (h : n.sendname q addr a = some n') :
    Adds n n' a.data.given := by
  unfold sendname at h
  dsimp only at h
  split at h
  · exact adds_send (a := { a with source := 0 }) h
  · split at h
    · obtain rfl := Option.some.inj h
      exact adds_free n _
    · exact adds_send (a := { a with source := 0 }) h
  · obtain ⟨⟨m, session, data⟩, hfilter, hsend⟩ := Option.bind_eq_some_iff.mp h
    exact (adds_harbor_send hsend).of_filtered hfilter

/-! ## One event -/

/-- What a service leaves to others it has no more. -/
theorem count_give (h : n.Owns q data) (b : ℕ) :
    n.held b + n.gone b =
      (n.modify q fun s => s.give data).held b + (n.modify q fun s => s.give data).gone b +
        data.pointers.count b := by
  have hgive : ∀ s : Service, data ∈ s.kept →
      data.pointers.count b + (s.give data).holds b = s.holds b := by
    intro s hin
    have herase := List.sum_map_erase (fun data : Data => data.pointers.count b) hin
    unfold Service.holds Service.give Service.dispatching
    dsimp only
    omega
  show n.held b + n.gone b = _ + n.gone b + _
  cases hs : n.services[q]? with
  | none =>
    rw [modify_of_none hs]
    rcases h with rfl | ⟨s, hin, -⟩
    · rfl
    · rw [hs] at hin
      cases hin
  | some s =>
    have hheld := held_modify hs (fun s => s.give data) b
    by_cases hin : data ∈ s.kept
    · have := hgive s hin
      omega
    · rcases h with rfl | ⟨s', hs', hin'⟩
      · have hsame : s.give .null = s := by
          unfold Service.give
          rw [List.erase_of_not_mem hin]
        rw [hsame] at hheld
        show _ = _ + 0
        omega
      · obtain rfl : s = s' := Option.some.inj (hs.symm.trans hs')
        exact absurd hin' hin

/-- The message that was dispatched is with the service no more, unless it was taken over. -/
theorem count_returned {taken : Bool} (hs : n.services[q]? = some s)
    (hmsg : s.msg = some (msg, taken)) (b : ℕ) :
    n.held b + n.gone b =
      (n.modify q fun s => { s with msg := none }).held b +
        (n.modify q fun s => { s with msg := none }).gone b +
        (if taken = true then 0 else msg.data.pointers.count b) := by
  have hheld := held_modify hs (fun s => { s with msg := none }) b
  show n.held b + n.gone b = _ + n.gone b + _
  unfold Service.holds Service.dispatching at hheld
  rw [hmsg] at hheld
  cases taken <;> simp only [if_true, if_false, Bool.false_eq_true] at hheld ⊢ <;> omega

theorem adds_dispatched {reserve taken : Bool} (hs : n.services[q]? = some s)
    (hmsg : s.msg = some (msg, taken)) (hreserve : reserve = taken)
    (hforward : taken = true → s.forward = 0)
    (h : n.dispatched q s msg reserve = some n') : Adds n n' .null := by
  have hcount := count_returned hs hmsg
  obtain ⟨⟨m, forwarded⟩, hforwarding, rfl⟩ := Option.map_eq_some_iff.mp h
  unfold forwarding at hforwarding
  subst hreserve
  split at hforwarding
  · rename_i hne
    cases reserve with
    | true => exact absurd (hforward rfl) hne
    | false =>
      obtain ⟨m', hsend, heq⟩ := Option.map_eq_some_iff.mp hforwarding
      obtain ⟨rfl, rfl⟩ := Prod.mk.inj heq
      have hadds := (adds_modify (n := n.modify q fun s => { s with msg := none }) (q := q)
        (f := fun s => { s with forward := 0 }) fun _ _ => rfl).trans (adds_send_message hsend)
      exact hadds.of_removed rfl hcount
  · obtain ⟨rfl, rfl⟩ := Prod.mk.inj (Option.some.inj hforwarding)
    cases reserve with
    | true =>
      have hsame : ∀ m : Node, Adds m m .null := fun _ => .of_same rfl fun _ => rfl
      exact (hsame _).of_removed rfl hcount
    | false => exact (adds_free _ msg.data).of_removed rfl hcount

theorem messages_pop (d : Deque Data) : (d.exec .pop).1.messages = d.messages.tail := rfl

theorem adds_dispatch (hs : n.services[q]? = some s) (hmsg : s.msg = none)
    (h : n.dispatch q s = some n') : Adds n n' .null := by
  unfold dispatch at h
  split at h
  · obtain rfl := Option.some.inj h
    exact .of_same rfl fun _ => rfl
  · rename_i msg rest hqueue
    let m := n.modify q fun s => { s with queue := (s.queue.exec .pop).1 }
    have hs' : m.services[q]? = some { s with queue := (s.queue.exec .pop).1 } := by
      show (n.services.modify q _)[q]? = _
      rw [List.getElem?_modify_eq, hs]
      rfl
    have hpop : ∀ b, n.held b + n.gone b = m.held b + m.gone b + msg.data.pointers.count b := by
      intro b
      have hheld := held_modify hs (fun s => { s with queue := (s.queue.exec .pop).1 }) b
      simp only [Service.holds, Service.dispatching, messages_pop, hqueue, List.tail_cons,
        List.map_cons, List.sum_cons] at hheld
      change m.held b + _ = _ at hheld
      show n.held b + n.gone b = m.held b + n.gone b + _
      omega
    dsimp only at h
    split at h
    · obtain rfl := Option.some.inj h
      exact (adds_free m msg.data).of_removed rfl hpop
    · split at h
      · cases h
      · obtain rfl := Option.some.inj h
        refine Adds.of_removed (m := m) (.of_same rfl fun b => ?_) rfl hpop
        have hheld := held_modify hs' (fun s => { s with msg := some (msg, false) }) b
        simp only [Service.holds, Service.dispatching, hmsg] at hheld
        show (m.modify q _).held b + m.gone b = m.held b + m.gone b + _
        omega

theorem count_frees (n : Node) (l : List Data) (b : ℕ) :
    (l.foldl free n).held b + (l.foldl free n).gone b =
      n.held b + n.gone b + (l.map fun data => data.pointers.count b).sum ∧
    (l.foldl free n).next = n.next := by
  induction l generalizing n with
  | nil => exact ⟨rfl, rfl⟩
  | cons data l ih =>
    obtain ⟨hcount, hnext⟩ := ih (n.free data)
    have hheld : (n.free data).held b = n.held b := by
      unfold held
      rw [free_services]
    rw [List.foldl_cons, hcount, hnext, gone_free, free_next, hheld, List.map_cons, List.sum_cons]
    exact ⟨by omega, rfl⟩

theorem adds_drop_queue (hs : n.services[q]? = some s) : Adds n (n.drop_queue q s) .null := by
  let m := n.modify q fun s => { s with queue := { s.queue with messages := [] } }
  refine .of_same (count_frees m _ 0).2 fun b => ?_
  have hheld := held_modify hs (fun s => { s with queue := { s.queue with messages := [] } }) b
  simp only [Service.holds, Service.dispatching, List.map_nil, List.sum_nil] at hheld
  change m.held b + _ = _ at hheld
  unfold drop_queue
  rw [(count_frees m _ b).1, List.map_map]
  show m.held b + n.gone b +
    (s.queue.messages.map fun msg => msg.data.pointers.count b).sum = n.held b + n.gone b + 0
  omega

theorem adds_exec {e : Event} (hc : n.Careful e) (he : n.exec e = some n') : Adds n n' .null := by
  cases e with
  | launch handle =>
    obtain rfl := Option.some.inj he
    refine .of_same rfl fun b => ?_
    show ((n.services ++ [_]).map (Service.holds b)).sum + n.gone b = _
    rw [List.map_append, List.sum_append]
    rfl
  | callback q cb =>
    obtain rfl := Option.some.inj he
    exact adds_modify fun _ _ => rfl
  | retire q =>
    obtain rfl := Option.some.inj he
    exact adds_modify fun _ _ => rfl
  | malloc q =>
    change (if q < n.services.length then _ else none) = some n' at he
    split at he
    · rename_i hq
      obtain rfl := Option.some.inj he
      refine Adds.of_malloc (.of_same rfl fun b => ?_)
      -- the new buffer is the one that the count of its service grows by
      have hheld := held_modify (n := n.malloc.1) (List.getElem?_eq_getElem hq)
        (fun s => { s with kept := n.malloc.2 :: s.kept }) b
      simp only [Service.holds, Service.dispatching] at hheld
      rw [List.map_cons, List.sum_cons] at hheld
      show _ + n.malloc.1.gone b = _
      omega
    · cases he
  | free q data =>
    obtain rfl := Option.some.inj he
    exact (adds_free _ data).of_removed rfl (count_give hc)
  | send q destination a => exact (adds_send he).of_removed rfl (count_give hc)
  | sendname q addr a => exact (adds_sendname he).of_removed rfl (count_give hc)
  | register =>
    change (if n.REMOTE < n.services.length then _ else none) = some n' at he
    split at he
    · rename_i hq
      obtain rfl := Option.some.inj he
      exact Adds.of_malloc (adds_context_send (n := n.malloc.1) hq _)
    · cases he
  | error source logger =>
    obtain rfl := Option.some.inj he
    exact Adds.of_malloc (adds_push_or_free _ _ _)
  | timeout handle session =>
    obtain rfl := Option.some.inj he
    cases h : n.context_push handle ⟨0, session, 1, .null⟩ with
    | none => exact .of_same rfl fun _ => rfl
    | some n' => exact adds_context_push h
  | lock q session =>
    obtain rfl := Option.some.inj he
    exact adds_modify fun _ _ => rfl
  | dispatch q =>
    obtain ⟨s, hs, hrest⟩ := Option.bind_eq_some_iff.mp he
    split at hrest
    · cases hrest
    · rename_i hidle
      exact adds_dispatch hs (by simpa using fun h => hidle (.inr h)) hrest
  | take q =>
    obtain ⟨s, hs, hrest⟩ := Option.bind_eq_some_iff.mp he
    split at hrest
    · rename_i msg hmsg
      obtain rfl := Option.some.inj hrest
      refine .of_same rfl fun b => ?_
      -- from the message to the service's own: it is counted once on either side
      have hheld := held_modify hs
        (fun s => { s with msg := some (msg, true), kept := msg.data :: s.kept }) b
      simp only [Service.holds, Service.dispatching] at hheld
      rw [hmsg, List.map_cons, List.sum_cons] at hheld
      dsimp only at hheld
      show _ + n.gone b = n.held b + n.gone b + 0
      omega
    · cases hrest
  | unwrap q =>
    obtain ⟨s, hs, hrest⟩ := Option.bind_eq_some_iff.mp he
    split at hrest
    · rename_i source session type b' destination message hmsg
      obtain rfl := Option.some.inj hrest
      refine .of_same rfl fun b => ?_
      have hheld := held_modify hs (fun s =>
        { s with
          msg := some (⟨source, session, type, .remote b' destination .null⟩, false)
          kept := message :: s.kept }) b
      simp only [Service.holds, Service.dispatching] at hheld
      rw [hmsg, List.map_cons, List.sum_cons] at hheld
      dsimp only [Data.pointers] at hheld
      rw [List.count_cons, List.count_cons, List.count_nil] at hheld
      show _ + n.gone b = n.held b + n.gone b + 0
      omega
    · cases hrest
  | forward q destination =>
    obtain ⟨s, -, hrest⟩ := Option.bind_eq_some_iff.mp he
    split at hrest
    · cases hrest
    · obtain rfl := Option.some.inj hrest
      exact adds_modify fun _ _ => rfl
  | callback_returns q reserve =>
    obtain ⟨s, hs, hrest⟩ := Option.bind_eq_some_iff.mp he
    obtain ⟨⟨msg, taken⟩, hmsg, hrest⟩ := Option.bind_eq_some_iff.mp hrest
    obtain ⟨hreserve, hforward⟩ := hc s hs _ hmsg
    exact adds_dispatched hs hmsg hreserve hforward hrest
  | release q =>
    obtain ⟨s, hs, hrest⟩ := Option.bind_eq_some_iff.mp he
    split at hrest
    · cases hrest
    · obtain rfl := Option.some.inj hrest
      exact adds_drop_queue hs

/-- **Each buffer is with one service, was freed once or is lost**, whatever the order. -/
theorem accounted_of_careful (h : (system.restrict Careful).Reachable n) : n.Accounted := by
  have haccounted : (system.restrict Careful).Inductive Accounted := by
    refine ⟨?_, ?_⟩
    · rintro n ⟨hservices, hnext, hfreed, hlost⟩ b
      rw [hnext, if_neg (Nat.not_lt_zero b)]
      show n.held b + (n.freed.count b + n.lost.count b) = 0
      unfold held
      rw [hservices, hfreed, hlost]
      rfl
    · intro n e n' _ hn hstep
      exact (adds_exec hstep.1 hstep.2).accounted hn
  exact haccounted.invariant n h

/-- A harbor service and two others, the second of which is the logger. -/
def three : List Event :=
  [.launch 16777217, .callback 0 true, .launch 16777218, .callback 1 true, .launch 16777219,
    .callback 2 true]

/-- A buffer goes to a service that takes it over and frees it, a copy to another harbor. -/
def exchange : List Event :=
  [.malloc 1, .send 1 16777219 ⟨0, 0, false, 0, .dontcopy (.buffer 0), 4⟩,
    .send 1 33554433 ⟨0, 0, true, 0, .copy, 4⟩, .dispatch 2, .take 2, .callback_returns 2 true,
    .dispatch 0, .unwrap 0, .free 0 (.buffer 1), .callback_returns 0 false, .free 2 (.buffer 0),
    .error 0 16777219]

def start : Node := ⟨16777216, 0, [], [], 0, [], []⟩

theorem accounted_of_careful_exchange :
    ∃ n : Node, n.next = 4 ∧ n.freed = [0, 2, 1] ∧ n.Accounted := by
  obtain ⟨n, hreach, hn⟩ := TSys.reachable_of_exec
    (p := fun n : Node => n.next == 4 && n.freed == [0, 2, 1])
    (TSys.restrictExec_step (T := system) (C := Careful) fun _ _ _ h => h)
    (s := start) ⟨rfl, rfl, rfl, rfl⟩ (l := three ++ exchange) (by decide +kernel)
  obtain ⟨hnext, hfreed⟩ : n.next = 4 ∧ n.freed = [0, 2, 1] := by simpa using hn
  exact ⟨n, hnext, hfreed, accounted_of_careful hreach⟩

end Node

end Buffers

end DnServer.Skynet
