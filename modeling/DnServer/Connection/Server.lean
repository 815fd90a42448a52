import DnServer.Lib.Transition

/-!
# The connection service

`connection/main.c` keeps its connections in an array that `connection_init`
allocates. When all slots are taken the recorded capacity doubles and the poll set
is made anew, but the array stays as it is. An index outside it and an added
connection that finds no slot are faults.
-/

namespace DnServer.Connection

open DnServer.Lib

def DEFAULT_CONNECTION : ℕ := 16

def EPOLLQUEUE : ℕ := 32

/-- `struct connection`; a free slot has address 0. -/
structure Conn where
  fd : ℤ
  address : ℕ
  close : Bool
  deriving DecidableEq, Repr

/-- `struct connection_pool`: which slot epoll reports for a descriptor, and the slots it has
reported that are not handled yet. -/
structure Pool where
  registered : ℤ → Option ℕ
  queue : List ℕ

/-- What must not happen. -/
inductive Fault
  /-- An index outside the array. -/
  | outOfBounds
  /-- A connection is added and finds no slot. -/
  | noSlot
  deriving DecidableEq, Repr

/-- `struct connection_server`; `conn` is what was allocated. -/
structure Server where
  max_connection : ℕ
  current_connection : ℤ
  conn : List Conn
  pool : Pool
  fault : Option Fault

def Pool.empty : Pool := ⟨fun _ => none, []⟩

/-- `connection_init`; nothing is allocated for a negative number. -/
def connection_init (param : ℤ) : Option Server :=
  let max_connection : ℤ := if param = 0 then DEFAULT_CONNECTION else param
  if max_connection < 0 then none
  else
    some
      { max_connection := max_connection.toNat
        current_connection := 0
        conn := List.replicate max_connection.toNat ⟨0, 0, false⟩
        pool := .empty
        fault := none }

namespace Server

def fail (s : Server) (f : Fault) : Server := { s with fault := some f }

/-- `connection_add`; the assertion behind it ends the process where epoll refuses, as it does
for a descriptor that it has already. -/
def connection_add (bad : ℤ → Bool) (s : Server) (fd : ℤ) (i : ℕ) : Option Server :=
  if bad fd ∨ (s.pool.registered fd).isSome then none
  else some { s with pool := { s.pool with registered := Function.update s.pool.registered fd (some i) } }

/-- `connection_del`. -/
def connection_del (s : Server) (fd : ℤ) : Server :=
  { s with pool := { s.pool with registered := Function.update s.pool.registered fd none } }

/-- One round of the loop in `_expand`. -/
def expand_at (bad : ℤ → Bool) (s : Server) (i : ℕ) : Option Server :=
  match s.conn[i]? with
  | none => some (s.fail .outOfBounds)
  | some c => s.connection_add bad c.fd i

/-- `_expand`. -/
def expand (bad : ℤ → Bool) (s : Server) : Option Server :=
  ((List.range s.max_connection).foldlM (expand_at bad) { s with pool := .empty }).map
    fun s => { s with max_connection := s.max_connection * 2 }

/-- The loop in `_add`, over the slots that are left. -/
def add_at (bad : ℤ → Bool) (s : Server) (fd : ℤ) (address : ℕ) : List ℕ → Option Server
  | [] => some (s.fail .noSlot)
  | i :: l =>
    match s.conn[i]? with
    | none => some (s.fail .outOfBounds)
    | some c =>
      if c.address = 0 then
        connection_add bad { s with conn := s.conn.set i ⟨fd, address, false⟩ } fd i
      else s.add_at bad fd address l

/-- `_add`. -/
def add (bad : ℤ → Bool) (s : Server) (fd : ℤ) (address : ℕ) : Option Server :=
  let s := { s with current_connection := s.current_connection + 1 }
  if s.current_connection > s.max_connection then
    (s.expand bad).bind fun s => s.add_at bad fd address (List.range s.max_connection)
  else s.add_at bad fd address (List.range s.max_connection)

/-- The loop in `_del`, over the slots that are left. -/
def del_at (s : Server) (fd : ℤ) : List ℕ → Server
  | [] => s
  | i :: l =>
    match s.conn[i]? with
    | none => s.fail .outOfBounds
    | some c =>
      if c.fd = fd then
        let s := if c.close then s else s.connection_del fd
        { s with
          conn := s.conn.set i ⟨0, 0, false⟩
          current_connection := s.current_connection - 1 }
      else s.del_at fd l

/-- `_del`. -/
def del (s : Server) (fd : ℤ) : Server := s.del_at fd (List.range s.max_connection)

/-- `connection_poll`, with the descriptors that epoll reports if it is asked. -/
def connection_poll (s : Server) (ready : List ℤ) : Option (ℕ × Server) :=
  let queue :=
    if s.pool.queue = [] then (ready.filterMap s.pool.registered).take EPOLLQUEUE else s.pool.queue
  match queue with
  | [] => none
  | i :: queue => some (i, { s with pool := { s.pool with queue := queue } })

/-- A round of the loop in `_poll`: the slot that is reported, and what `read` gives. It says
whether the loop goes on. -/
def poll_at (s : Server) (i : ℕ) (size : ℤ) : Server × Bool :=
  match s.conn[i]? with
  | none => (s.fail .outOfBounds, false)
  | some c =>
    if size = 0 then
      if c.close then (s, false)
      else ({ s with conn := s.conn.set i { c with close := true } }.connection_del c.fd, true)
    else (s, true)

/-- `_poll`, with what epoll and `read` give in each round. -/
def poll (s : Server) : List (List ℤ × ℤ) → Server
  | [] => s
  | r :: rs =>
    match s.connection_poll r.1 with
    | none => s
    | some (i, s') => if (s'.poll_at i r.2).2 then (s'.poll_at i r.2).1.poll rs else (s'.poll_at i r.2).1

end Server

/-- A message of the service. -/
inductive Ev
  | add (fd : ℤ) (address : ℕ) (bad : ℤ → Bool)
  | del (fd : ℤ)
  | poll (rounds : List (List ℤ × ℤ))

namespace Server

/-- `_connection_main`; an `ADD` with address 0 is refused. -/
def exec (s : Server) : Ev → Option Server
  | .add fd address bad => if address = 0 then some s else s.add bad fd address
  | .del fd => some (s.del fd)
  | .poll rounds => some (s.poll rounds)

def system : TSys Server Ev where
  init s := ∃ param, connection_init param = some s
  step s e t := s.fault = none ∧ s.exec e = some t

/-! ## What the table is for -/

/-- No index was outside the array, every connection found a slot, and the capacity is not more
than was allocated. -/
structure Sound (s : Server) : Prop where
  fault : s.fault = none
  capacity : s.max_connection ≤ s.conn.length

/-- A connection stays in its slot until it is deleted, and at most one is deleted; one that is
added gets a slot that was free. -/
structure Keeps (s : Server) (e : Ev) (t : Server) : Prop where
  stays : ∀ (i : ℕ) (c : Conn), s.conn[i]? = some c → c.address ≠ 0 →
    (∃ close, t.conn[i]? = some { c with close := close }) ∨
      e = .del c.fd ∧ ∀ j, j ≠ i → t.conn[j]? = s.conn[j]?
  added : ∀ fd address bad, e = .add fd address bad → address ≠ 0 →
    ∃ (i : ℕ) (c : Conn), s.conn[i]? = some c ∧ c.address = 0 ∧
      t.conn[i]? = some ⟨fd, address, false⟩

/-- An `ADD` finds the count below the capacity and a slot that is free. -/
def Room (s : Server) : Ev → Prop
  | .add _ address _ =>
    address ≠ 0 → s.current_connection < s.max_connection ∧ ∃ c ∈ s.conn, c.address = 0
  | _ => True

instance (s : Server) : (e : Ev) → Decidable (s.Room e)
  | .add _ _ _ => inferInstanceAs (Decidable (_ → _ ∧ ∃ c ∈ s.conn, c.address = 0))
  | .del _ => isTrue trivial
  | .poll _ => isTrue trivial

/-- The capacity is what was allocated, and epoll knows slots of the array only. -/
structure Allocated (s : Server) : Prop where
  fault : s.fault = none
  capacity : s.max_connection = s.conn.length
  registered : ∀ fd i, s.pool.registered fd = some i → i < s.conn.length
  queue : ∀ i ∈ s.pool.queue, i < s.conn.length

variable {s t : Server} {fd : ℤ} {i : ℕ} {bad : ℤ → Bool} {address : ℕ}

theorem Allocated.sound (h : s.Allocated) : s.Sound := ⟨h.fault, h.capacity.le⟩

theorem connection_init_allocated {param : ℤ} (h : connection_init param = some s) :
    s.Allocated ∧ 0 < s.max_connection := by
  unfold connection_init at h
  dsimp only at h
  have hne : (if param = 0 then (DEFAULT_CONNECTION : ℤ) else param) ≠ 0 := by
    split
    · decide
    · assumption
  revert h hne
  generalize (if param = 0 then (DEFAULT_CONNECTION : ℤ) else param) = max_connection
  intro h hne
  split at h
  · cases h
  · obtain rfl := Option.some.inj h
    refine ⟨⟨rfl, by simp, ?_, ?_⟩, ?_⟩
    · intro fd i hi
      cases hi
    · intro i hi
      cases hi
    · show 0 < max_connection.toNat
      omega

theorem connection_add_eq (h : s.connection_add bad fd i = some t) :
    t = { s with pool :=
      { s.pool with registered := Function.update s.pool.registered fd (some i) } } := by
  unfold connection_add at h
  split at h
  · cases h
  · exact (Option.some.inj h).symm

theorem Allocated.connection_add (h : s.Allocated) (hi : i < s.conn.length)
    (hx : s.connection_add bad fd i = some t) : t.Allocated := by
  obtain rfl := connection_add_eq hx
  refine ⟨h.fault, h.capacity, ?_, h.queue⟩
  intro fd' j hj
  by_cases hfd : fd' = fd
  · subst hfd
    have hij : i = j := by simpa using hj
    exact hij ▸ hi
  · exact h.registered fd' j (by simpa [hfd] using hj)

theorem Allocated.connection_del (h : s.Allocated) : (s.connection_del fd).Allocated := by
  refine ⟨h.fault, h.capacity, ?_, h.queue⟩
  intro fd' j hj
  by_cases hfd : fd' = fd
  · subst hfd
    simp [Server.connection_del] at hj
  · exact h.registered fd' j (by simpa [Server.connection_del, hfd] using hj)

/-- A slot is written. -/
theorem Allocated.set (h : s.Allocated) (c : Conn) :
    ({ s with conn := s.conn.set i c } : Server).Allocated := by
  constructor
  · exact h.fault
  · rw [List.length_set]
    exact h.capacity
  · rw [List.length_set]
    exact h.registered
  · rw [List.length_set]
    exact h.queue

/-! ## Adding -/

/-- The loop of `_add` ends at the first free slot, or finds none. -/
theorem add_at_cases {l : List ℕ} (hl : ∀ i ∈ l, i < s.conn.length)
    (hx : s.add_at bad fd address l = some t) :
    (t = s.fail .noSlot ∧ ∀ i ∈ l, ∀ c, s.conn[i]? = some c → c.address ≠ 0) ∨
      ∃ i c, i < s.conn.length ∧ s.conn[i]? = some c ∧ c.address = 0 ∧
        connection_add bad { s with conn := s.conn.set i ⟨fd, address, false⟩ } fd i = some t := by
  induction l with
  | nil => exact .inl ⟨(Option.some.inj hx).symm, fun i hi => (List.not_mem_nil hi).elim⟩
  | cons i l ih =>
    have hi := hl i (List.mem_cons_self ..)
    unfold Server.add_at at hx
    rw [List.getElem?_eq_getElem hi] at hx
    dsimp only at hx
    split at hx
    · rename_i hfree
      exact .inr ⟨i, s.conn[i], hi, List.getElem?_eq_getElem hi, hfree, hx⟩
    · rename_i htaken
      rcases ih (fun j hj => hl j (List.mem_cons_of_mem _ hj)) hx with ⟨ht, hall⟩ | hfound
      · refine .inl ⟨ht, ?_⟩
        intro j hj c hc
        rcases List.mem_cons.mp hj with rfl | hj
        · rw [List.getElem?_eq_getElem hi] at hc
          exact Option.some.inj hc ▸ htaken
        · exact hall j hj c hc
      · exact .inr hfound

theorem add_at_capacity {l : List ℕ} (hx : s.add_at bad fd address l = some t) :
    t.max_connection = s.max_connection ∧ t.conn.length = s.conn.length := by
  induction l with
  | nil =>
    obtain rfl := Option.some.inj hx
    exact ⟨rfl, rfl⟩
  | cons i l ih =>
    unfold Server.add_at at hx
    split at hx
    · obtain rfl := Option.some.inj hx
      exact ⟨rfl, rfl⟩
    · split at hx
      · rw [connection_add_eq hx]
        exact ⟨rfl, List.length_set ..⟩
      · exact ih hx

theorem expand_rounds_capacity {l : List ℕ} (hx : l.foldlM (expand_at bad) s = some t) :
    t.max_connection = s.max_connection ∧ t.conn = s.conn := by
  induction l generalizing s with
  | nil =>
    obtain rfl := Option.some.inj hx
    exact ⟨rfl, rfl⟩
  | cons i l ih =>
    rw [List.foldlM_cons] at hx
    obtain ⟨u, hu, hrest⟩ := Option.bind_eq_some_iff.mp hx
    have hround : u.max_connection = s.max_connection ∧ u.conn = s.conn := by
      unfold expand_at at hu
      split at hu
      · obtain rfl := Option.some.inj hu
        exact ⟨rfl, rfl⟩
      · rw [connection_add_eq hu]
        exact ⟨rfl, rfl⟩
    obtain ⟨hmax, hconn⟩ := ih hrest
    exact ⟨hmax.trans hround.1, hconn.trans hround.2⟩

/-- The capacity doubles, and the array stays. -/
theorem expand_capacity (hx : s.expand bad = some t) :
    t.max_connection = s.max_connection * 2 ∧ t.conn = s.conn := by
  obtain ⟨u, hu, rfl⟩ := Option.map_eq_some_iff.mp hx
  obtain ⟨hmax, hconn⟩ := expand_rounds_capacity hu
  exact ⟨congrArg (· * 2) hmax, hconn⟩

/-- With room for it, a connection gets a free slot, and nothing else changes. -/
theorem Allocated.add (h : s.Allocated) (hroom : s.current_connection < s.max_connection)
    (hfree : ∃ c ∈ s.conn, c.address = 0) (hx : s.add bad fd address = some t) :
    t.Allocated ∧ t.max_connection = s.max_connection ∧
      ∃ i c, s.conn[i]? = some c ∧ c.address = 0 ∧
        t.conn = s.conn.set i ⟨fd, address, false⟩ := by
  have hlt : ¬s.current_connection + 1 > s.max_connection := by omega
  have hs : ({ s with current_connection := s.current_connection + 1 } : Server).Allocated :=
    ⟨h.fault, h.capacity, h.registered, h.queue⟩
  unfold Server.add at hx
  dsimp only at hx
  rw [if_neg hlt] at hx
  have hcapacity := add_at_capacity hx
  have hl : ∀ i ∈ List.range s.max_connection, i < s.conn.length := by
    intro i hi
    rw [← h.capacity]
    exact List.mem_range.mp hi
  rcases add_at_cases (s := { s with current_connection := s.current_connection + 1 }) hl hx with ⟨-, hall⟩ | ⟨i, c, hi, hc, hzero, hadd⟩
  · obtain ⟨c, hmem, hc⟩ := hfree
    obtain ⟨i, hi, rfl⟩ := List.getElem_of_mem hmem
    exact absurd hc (hall i (List.mem_range.mpr (h.capacity ▸ hi)) _ (List.getElem?_eq_getElem hi))
  · refine ⟨(hs.set _).connection_add (by rw [List.length_set]; exact hi) hadd, hcapacity.1, i, c, hc, hzero, ?_⟩
    rw [connection_add_eq hadd]

/-- Without room for it the capacity is more than was allocated, or no slot is found. -/
theorem Allocated.add_full (h : s.Allocated) (hpos : 0 < s.max_connection)
    (hfull : ¬(s.current_connection < s.max_connection ∧ ∃ c ∈ s.conn, c.address = 0))
    (hx : s.add bad fd address = some t) : ¬t.Sound := by
  intro ht
  unfold Server.add at hx
  dsimp only at hx
  split at hx
  · obtain ⟨u, hu, hadd⟩ := Option.bind_eq_some_iff.mp hx
    obtain ⟨hmax, hconn⟩ := expand_capacity hu
    obtain ⟨hmax', hlen⟩ := add_at_capacity hadd
    have hcapacity := ht.capacity
    have hold := h.capacity
    rw [hmax', hmax, hlen, hconn] at hcapacity
    dsimp only at hcapacity
    omega
  · have hl : ∀ i ∈ List.range s.max_connection, i < s.conn.length := by
      intro i hi
      rw [← h.capacity]
      exact List.mem_range.mp hi
    rcases add_at_cases (s := { s with current_connection := s.current_connection + 1 }) hl hx with ⟨rfl, -⟩ | ⟨i, c, -, hc, hzero, -⟩
    · cases ht.fault
    · exact hfull ⟨by omega, c, List.mem_of_getElem? hc, hzero⟩

/-! ## Deleting and polling -/

/-- A connection that was closed is not in the poll set any more. -/
theorem Allocated.forget (h : s.Allocated) (fd : ℤ) (close : Bool) :
    (if close then s else s.connection_del fd).Allocated ∧
      (if close then s else s.connection_del fd).conn = s.conn ∧
      (if close then s else s.connection_del fd).max_connection = s.max_connection := by
  split
  · exact ⟨h, rfl, rfl⟩
  · exact ⟨h.connection_del, rfl, rfl⟩

/-- `_del` does nothing, or frees one slot of the descriptor. -/
theorem del_at_cases (fd : ℤ) {l : List ℕ} (h : s.Allocated) (hl : ∀ i ∈ l, i < s.conn.length) :
    s.del_at fd l = s ∨ ((s.del_at fd l).Allocated ∧
      (s.del_at fd l).max_connection = s.max_connection ∧
      ∃ i c, s.conn[i]? = some c ∧ c.fd = fd ∧
        (s.del_at fd l).conn = s.conn.set i ⟨0, 0, false⟩) := by
  induction l with
  | nil => exact .inl rfl
  | cons i l ih =>
    have hi := hl i (List.mem_cons_self ..)
    unfold del_at
    rw [List.getElem?_eq_getElem hi]
    dsimp only
    split
    · rename_i hfd
      obtain ⟨hs, hconn, hmax⟩ := h.forget fd s.conn[i].close
      revert hs hconn hmax
      generalize (if s.conn[i].close then s else s.connection_del fd) = u
      intro hs hconn hmax
      have hset := hs.set (i := i) ⟨0, 0, false⟩
      refine .inr ⟨⟨hset.fault, hset.capacity, hset.registered, hset.queue⟩, hmax, i, s.conn[i],
        List.getElem?_eq_getElem hi, hfd, ?_⟩
      exact congrArg (fun l => List.set l i ⟨0, 0, false⟩) hconn
    · exact ih fun j hj => hl j (List.mem_cons_of_mem _ hj)

/-- What epoll reports are slots of the array. -/
theorem Allocated.connection_poll {ready : List ℤ} (h : s.Allocated)
    (hx : s.connection_poll ready = some (i, t)) :
    i < s.conn.length ∧ t.Allocated ∧ t.conn = s.conn ∧ t.max_connection = s.max_connection := by
  unfold Server.connection_poll at hx
  dsimp only at hx
  have hqueue : ∀ j ∈ (if s.pool.queue = [] then
      (ready.filterMap s.pool.registered).take EPOLLQUEUE else s.pool.queue), j < s.conn.length := by
    intro j hj
    split at hj
    · obtain ⟨fd, -, hfd⟩ := List.mem_filterMap.mp (List.mem_of_mem_take hj)
      exact h.registered fd j hfd
    · exact h.queue j hj
  revert hx hqueue
  generalize (if s.pool.queue = [] then
      (ready.filterMap s.pool.registered).take EPOLLQUEUE else s.pool.queue) = queue
  intro hx hqueue
  cases queue with
  | nil => cases hx
  | cons j queue =>
    cases hx
    exact ⟨hqueue i (List.mem_cons_self ..), ⟨h.fault, h.capacity, h.registered,
      fun k hk => hqueue k (List.mem_cons_of_mem _ hk)⟩, rfl, rfl⟩

/-- The connections of a table stay; some may be closed. -/
def SameConns (s t : Server) : Prop :=
  t.max_connection = s.max_connection ∧
    ∀ (i : ℕ) (c : Conn), s.conn[i]? = some c → ∃ close, t.conn[i]? = some { c with close := close }

theorem SameConns.refl (s : Server) : s.SameConns s := ⟨rfl, fun _ c hc => ⟨c.close, hc⟩⟩

theorem SameConns.trans {u : Server} (h : s.SameConns t) (h' : t.SameConns u) : s.SameConns u := by
  refine ⟨h'.1.trans h.1, ?_⟩
  intro i c hc
  obtain ⟨close, hc'⟩ := h.2 i c hc
  obtain ⟨close', hc'⟩ := h'.2 i _ hc'
  exact ⟨close', hc'⟩

theorem Allocated.poll_at (size : ℤ) (h : s.Allocated) (hi : i < s.conn.length) :
    (s.poll_at i size).1.Allocated ∧ s.SameConns (s.poll_at i size).1 := by
  unfold Server.poll_at
  rw [List.getElem?_eq_getElem hi]
  dsimp only
  split
  · split
    · exact ⟨h, .refl s⟩
    · refine ⟨(h.set _).connection_del, rfl, ?_⟩
      intro j c hc
      by_cases hij : i = j
      · subst hij
        rw [List.getElem?_eq_getElem hi] at hc
        obtain rfl := Option.some.inj hc
        exact ⟨true, List.getElem?_set_self hi⟩
      · exact ⟨c.close, (List.getElem?_set_ne hij).trans hc⟩
  · exact ⟨h, .refl s⟩

theorem Allocated.poll (rounds : List (List ℤ × ℤ)) (h : s.Allocated) :
    (s.poll rounds).Allocated ∧ s.SameConns (s.poll rounds) := by
  induction rounds generalizing s with
  | nil => exact ⟨h, .refl s⟩
  | cons r rs ih =>
    unfold Server.poll
    cases hp : s.connection_poll r.1 with
    | none => exact ⟨h, .refl s⟩
    | some p =>
      obtain ⟨i, u⟩ := p
      obtain ⟨hi, hu, hconn, hmax⟩ := h.connection_poll hp
      have hsu : s.SameConns u := ⟨hmax, fun j c hc => ⟨c.close, hconn ▸ hc⟩⟩
      obtain ⟨hround, hsame⟩ := hu.poll_at r.2 (hconn ▸ hi)
      dsimp only
      split
      · obtain ⟨hend, hsame'⟩ := ih hround
        exact ⟨hend, (hsu.trans hsame).trans hsame'⟩
      · exact ⟨hround, hsu.trans hsame⟩

/-! ## Every run -/

/-- The slot that is written is the only one that changes. -/
theorem getElem?_set_cases {l : List Conn} {c d : Conn} {j : ℕ} (hc : l[j]? = some c) :
    (j ≠ i ∧ (l.set i d)[j]? = some c) ∨ (j = i ∧ (l.set i d)[j]? = some d) := by
  have hj := (List.getElem?_eq_some_iff.mp hc).1
  by_cases hij : i = j
  · subst hij
    exact .inr ⟨rfl, List.getElem?_set_self hj⟩
  · exact .inl ⟨Ne.symm hij, (List.getElem?_set_ne hij).trans hc⟩

theorem SameConns.stays (h : s.SameConns t) {e : Ev} (i : ℕ) (c : Conn) (hc : s.conn[i]? = some c) :
    (∃ close, t.conn[i]? = some { c with close := close }) ∨
      e = .del c.fd ∧ ∀ j, j ≠ i → t.conn[j]? = s.conn[j]? :=
  .inl (h.2 i c hc)

/-- A message that finds room keeps the table. -/
theorem Allocated.exec {e : Ev} (h : s.Allocated) (hr : s.Room e) (hx : s.exec e = some t) :
    t.Allocated ∧ t.max_connection = s.max_connection ∧ s.Keeps e t := by
  cases e with
  | add fd address bad =>
    unfold Server.exec at hx
    dsimp only at hx
    split at hx
    · rename_i hzero
      obtain rfl := Option.some.inj hx
      refine ⟨h, rfl, fun i c hc _ => (SameConns.refl s).stays i c hc, ?_⟩
      intro fd' address' bad' he hne
      cases he
      exact absurd hzero hne
    · rename_i hne
      obtain ⟨hroom, hfree⟩ := hr hne
      obtain ⟨ht, hmax, i, c, hc, hzero, hconn⟩ := h.add hroom hfree hx
      refine ⟨ht, hmax, ?_, ?_⟩
      · intro j d hd hlive
        rw [hconn]
        rcases getElem?_set_cases (i := i) (d := ⟨fd, address, false⟩) hd with ⟨-, hj⟩ | ⟨rfl, -⟩
        · exact .inl ⟨d.close, hj⟩
        · rw [hc] at hd
          obtain rfl := Option.some.inj hd
          exact absurd hzero hlive
      · intro fd' address' bad' he _
        cases he
        refine ⟨i, c, hc, hzero, ?_⟩
        rw [hconn]
        exact List.getElem?_set_self (List.getElem?_eq_some_iff.mp hc).1
  | del fd =>
    obtain rfl := Option.some.inj hx
    have hl : ∀ i ∈ List.range s.max_connection, i < s.conn.length := by
      intro i hi
      rw [← h.capacity]
      exact List.mem_range.mp hi
    have hadded : ∀ fd' address bad, Ev.del fd = .add fd' address bad → address ≠ 0 →
        ∃ (i : ℕ) (c : Conn), s.conn[i]? = some c ∧ c.address = 0 ∧
          (s.del fd).conn[i]? = some ⟨fd', address, false⟩ := by
      intro fd' address bad he
      cases he
    rcases del_at_cases fd h hl with hsame | ⟨ht, hmax, i, c, hc, hfd, hconn⟩
    · have hsame : s.del fd = s := hsame
      refine ⟨hsame.symm ▸ h, congrArg _ hsame, ?_, hadded⟩
      intro i c hc _
      exact (hsame.symm ▸ SameConns.refl s : s.SameConns (s.del fd)).stays i c hc
    · refine ⟨ht, hmax, ?_, hadded⟩
      have hconn : (s.del fd).conn = s.conn.set i ⟨0, 0, false⟩ := hconn
      intro j d hd _
      rw [hconn]
      rcases getElem?_set_cases (i := i) (d := ⟨0, 0, false⟩) hd with ⟨-, hj⟩ | ⟨rfl, -⟩
      · exact .inl ⟨d.close, hj⟩
      · rw [hc] at hd
        obtain rfl := Option.some.inj hd
        exact .inr ⟨by rw [hfd], fun k hk => List.getElem?_set_ne (Ne.symm hk)⟩
  | poll rounds =>
    obtain rfl := Option.some.inj hx
    obtain ⟨ht, hsame⟩ := h.poll rounds
    refine ⟨ht, hsame.1, fun i c hc _ => hsame.stays i c hc, ?_⟩
    intro fd address bad he
    cases he

theorem reachable_allocated (h : (system.restrict Room).Reachable s) :
    s.Allocated ∧ 0 < s.max_connection := by
  have hind : (system.restrict Room).Inductive fun s => s.Allocated ∧ 0 < s.max_connection := by
    refine ⟨?_, ?_⟩
    · rintro s ⟨param, hs⟩
      exact connection_init_allocated hs
    · intro s e t _ hs hstep
      obtain ⟨ht, hmax, -⟩ := hs.1.exec hstep.1 hstep.2.2
      exact ⟨ht, hmax ▸ hs.2⟩
  exact hind.invariant s h

/-- **The table is right as long as there is room.** In a run whose steps all find room every state
is sound, and the next step keeps the table and is sound just when it finds room too. -/
theorem sound_iff_room (h : (system.restrict Room).Reachable s) :
    s.Sound ∧ ∀ e t, system.step s e t → ((t.Sound ∧ s.Keeps e t) ↔ s.Room e) := by
  obtain ⟨hs, hpos⟩ := reachable_allocated h
  refine ⟨hs.sound, ?_⟩
  intro e t hstep
  constructor
  · rintro ⟨ht, -⟩
    cases e with
    | add fd address bad =>
      intro hne
      by_contra hfull
      have hx : s.add bad fd address = some t := by
        have hx := hstep.2
        unfold Server.exec at hx
        dsimp only at hx
        rwa [if_neg hne] at hx
      exact hs.add_full hpos hfull hx ht
    | del fd => trivial
    | poll rounds => trivial
  · intro hr
    obtain ⟨ht, -, hkeeps⟩ := hs.exec hr hstep.2
    exact ⟨ht.sound, hkeeps⟩

/-- `n` connections, one after the other. -/
def adds (n : ℕ) : List Ev :=
  (List.range n).map fun i : ℕ => .add ((i : ℤ) + 5) (i + 1) fun _ => false

/-- A table of two slots. -/
def two : Server := ⟨2, 0, List.replicate 2 ⟨0, 0, false⟩, .empty, none⟩

theorem system_exec (s : Server) (e : Ev) (t : Server)
    (h : (if s.fault = none then s.exec e else none) = some t) : system.step s e t := by
  split at h
  · rename_i hfault
    exact ⟨hfault, h⟩
  · cases h

/-- Two connections find their slots, and then one is deleted. -/
theorem sound_iff_room_two : ∃ s : Server, s.current_connection = 1 ∧ s.Sound := by
  obtain ⟨s, hreach, hs⟩ := TSys.reachable_of_exec (p := fun s : Server => s.current_connection == 1)
    (TSys.restrictExec_step (T := system) (C := Room) system_exec) (s := two) ⟨2, rfl⟩
    (l := adds 2 ++ [.del 5]) (by decide)
  exact ⟨s, by simpa using hs, (sound_iff_room hreach).1⟩

/-- The third connection in a table of two slots: the capacity is more than was allocated. -/
theorem third_outside : ¬ ∀ s, system.Reachable s → s.Sound := by
  intro hall
  obtain ⟨s, hreach, hs⟩ := TSys.reachable_of_exec
    (p := fun s : Server => s.fault == some .outOfBounds) system_exec (s := two) ⟨2, rfl⟩
    (l := adds 3) (by decide)
  have hfault : s.fault = some .outOfBounds := by simpa using hs
  rw [(hall s hreach).fault] at hfault
  cases hfault

end Server

end DnServer.Connection
