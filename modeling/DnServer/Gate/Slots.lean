import DnServer.Gate.Mread

/-!
# The slots of the pool

A slot is on the free list, in use, or closed and not yet reported, and `closed`
counts the last kind. What keeps this: each function moves a slot along at most
one of the three edges and counts and threads it when it does. The edge from
free to in use has a way out that forgets the slot: a socket that `epoll_ctl`
refuses.

* `slots_conserved`: each function by its `Socket.Move`, a pull as a sequence of steps
  (`pull_step`); `slot_leaked` is a client that `epoll_ctl` refuses.
-/

namespace DnServer.Gate

open DnServer.Lib

/-! ## What sockets do -/

/-- What one operation does to a socket: its class of status stays, or it closes. -/
inductive Socket.Move (s : Socket) : Socket × Bool → Prop
  | kept {t : Socket} (hfd : t.fd = s.fd) (hstatus : t.status = s.status) : Move s (t, false)
  | alive {t : Socket} (hs : s.status.alive = true) (ht : t.status.alive = true) : Move s (t, false)
  | closed {t : Socket} (hs : s.status.alive = true) (ht : t.status = .CLOSED) : Move s (t, true)

namespace Socket

variable {s : Socket}

theorem quiet_fd : s.quiet.fd = s.fd := by
  unfold quiet turn_off
  split
  · split <;> rfl
  · rfl

/-- `try_close` after something that left `fd` and the class of status alone. -/
theorem try_close_move {t : Socket} (hfd : t.fd = s.fd)
    (hstatus : t.status = s.status ∨ s.status.alive = true ∧ t.status.alive = true) :
    s.Move t.try_close := by
  obtain ⟨-, hquiet⟩ := quiet_spec (s := t)
  have hmove : s.Move (t.quiet, false) := by
    rcases hstatus with heq | ⟨hs, ht⟩
    · exact .kept (quiet_fd.trans hfd) (hquiet.trans heq)
    · exact .alive hs (hquiet ▸ ht)
  rw [try_close_eq]
  split
  · exact hmove
  · rename_i hhalf
    rw [not_not] at hhalf
    split
    · refine .closed ?_ rfl
      rcases hstatus with heq | ⟨hs, -⟩
      · rw [← heq, hhalf]
        rfl
      · exact hs
    · exact hmove

theorem isOpen_alive (h : s.status.isOpen = true) : s.status.alive = true :=
  (Bool.and_eq_true_iff.mp h).1

theorem mread_push_move (buffer : List UInt8) (env : List WriteResult) :
    s.Move ((s.mread_push buffer env).1, (s.mread_push buffer env).2.2) := by
  have hon : ∀ t : Socket, t.fd = s.fd → t.status = s.status → s.Move (t.turn_on, false) := by
    intro t hfd hstatus
    refine .kept ?_ (turn_on_spec.2.trans hstatus)
    unfold turn_on
    split <;> exact hfd
  unfold mread_push
  split
  · exact .kept rfl rfl
  · rename_i hopen
    rw [Bool.not_eq_true', Bool.not_eq_false] at hopen
    split
    · split
      · exact try_close_move rfl (.inr ⟨isOpen_alive hopen, rfl⟩)
      · exact .kept rfl rfl
      · exact hon _ rfl rfl
    · exact hon _ rfl rfl

theorem writable_move (env : List WriteResult) :
    s.Move ((s.writable env).1, (s.writable env).2.2) := by
  unfold writable
  split
  · exact .kept rfl rfl
  · exact try_close_move rfl (.inl rfl)

theorem mread_close_client_move : s.Move s.mread_close_client := by
  unfold mread_close_client
  split
  · exact .kept rfl rfl
  · rename_i hopen
    rw [Bool.not_eq_true', Bool.not_eq_false] at hopen
    exact try_close_move rfl (.inr ⟨isOpen_alive hopen, rfl⟩)

theorem force_close_client_move : s.Move s.force_close_client := by
  unfold force_close_client
  split
  · exact .kept rfl rfl
  · rename_i hopen
    rw [Bool.not_eq_true', Bool.not_eq_false] at hopen
    exact try_close_move rfl (.inr ⟨isOpen_alive hopen, rfl⟩)

end Socket

/-! ## The accounts -/

namespace Pool

/-- The slots on the free list from `first` on. -/
def FreeList (sockets : ℕ → Socket) : Option ℕ → List ℕ → Prop
  | first, [] => first = none
  | first, i :: l => first = some i ∧
      FreeList sockets (if (sockets i).fd < 0 then none else some (sockets i).fd.toNat) l

/-- The closed slots. -/
def closedSlots (self : Pool) : Finset ℕ :=
  (Finset.range self.max_connection).filter fun i => (self.sockets i).status = .CLOSED

/-- Every slot is free, in use or closed, and the closed ones are counted. -/
structure Accounted (p : Pool) : Prop where
  free : ∃ l : List ℕ, l.Nodup ∧ FreeList p.sockets p.free_socket l ∧
    ∀ i, i ∈ l ↔ i < p.max_connection ∧ (p.sockets i).status = .INVALID
  closed : p.closed = p.closedSlots.card
  active : ∀ i, p.active = some i → i < p.max_connection ∧ (p.sockets i).status ≠ .INVALID

variable {self self' : Pool} {i : ℕ} {first : Option ℕ} {sockets sockets' : ℕ → Socket} {l : List ℕ}

theorem mem_closedSlots :
    i ∈ self.closedSlots ↔ i < self.max_connection ∧ (self.sockets i).status = .CLOSED := by
  unfold closedSlots
  rw [Finset.mem_filter, Finset.mem_range]

/-- The list is threaded through the free slots only. -/
theorem FreeList.congr (h : FreeList sockets first l)
    (heq : ∀ i ∈ l, (sockets' i).fd = (sockets i).fd) : FreeList sockets' first l := by
  induction l generalizing first with
  | nil => exact h
  | cons i l ih =>
    refine ⟨h.1, ?_⟩
    rw [heq i (List.mem_cons_self ..)]
    exact ih h.2 fun j hj => heq j (List.mem_cons_of_mem _ hj)

/-- A slot goes to the front of the list. -/
theorem FreeList.push {s : Socket} (hfd : s.fd = match first with | some i => (i : ℤ) | none => -1)
    (h : FreeList sockets first l) (hnot : i ∉ l) :
    FreeList (Function.update sockets i s) (some i) (i :: l) := by
  refine ⟨rfl, ?_⟩
  rw [Function.update_self, hfd]
  have hnext : (if (match first with | some i => (i : ℤ) | none => -1) < 0 then none
      else some (match first with | some i => (i : ℤ) | none => -1).toNat) = first := by
    cases first with
    | none => rfl
    | some j =>
      show (if (j : ℤ) < 0 then none else some (j : ℤ).toNat) = some j
      rw [if_neg (by omega), Int.toNat_natCast]
  rw [hnext]
  refine h.congr fun j hj => congrArg Socket.fd (Function.update_of_ne ?_ ..)
  rintro rfl
  exact hnot hj

/-- The rest of the pool does not matter. -/
theorem Accounted.congr (h : self.Accounted) (hmax : self'.max_connection = self.max_connection)
    (hclosed : self'.closed = self.closed) (hsockets : self'.sockets = self.sockets)
    (hfree : self'.free_socket = self.free_socket)
    (hactive : self'.active = self.active ∨ self'.active = none) : self'.Accounted := by
  refine ⟨?_, ?_, ?_⟩
  · rw [hmax, hsockets, hfree]
    exact h.free
  · unfold closedSlots
    rw [hclosed, hmax, hsockets]
    exact h.closed
  · rw [hmax, hsockets]
    rcases hactive with ha | ha
    · rw [ha]
      exact h.active
    · rw [ha]
      exact nofun

theorem set_self (s : Socket) : (self.set i s).sockets i = s := Function.update_self ..

theorem set_of_ne {j : ℕ} (s : Socket) (h : j ≠ i) : (self.set i s).sockets j = self.sockets j :=
  Function.update_of_ne h ..

/-- A slot in use does not become a free one. -/
theorem not_mem_free (hfree : ∀ i, i ∈ l ↔ i < self.max_connection ∧
    (self.sockets i).status = .INVALID) (h : (self.sockets i).status.alive = true) : i ∉ l := by
  intro hmem
  have := (hfree i).mp hmem
  rw [this.2] at h
  cases h

/-- The operation of one socket. -/
theorem Accounted.settle {r : Socket × Bool} (h : self.Accounted) (hi : i < self.max_connection)
    (hr : (self.sockets i).Move r) : (self.settle i r).Accounted := by
  obtain ⟨l, hnodup, hlist, hfree⟩ := h.free
  cases hr with
  -- neither list changes
  | @kept t hfd hstatus =>
    have hstat : ∀ j, ((self.set i t).sockets j).status = (self.sockets j).status := by
      intro j
      by_cases hj : j = i
      · rw [hj, set_self, hstatus]
      · rw [set_of_ne t hj]
    refine ⟨⟨l, hnodup, hlist.congr fun j _ => ?_, fun j => ?_⟩, ?_, fun j hj => ?_⟩
    · show ((self.set i t).sockets j).fd = _
      by_cases hj : j = i
      · rw [hj, set_self, hfd]
      · rw [set_of_ne t hj]
    · rw [hfree]
      exact and_congr_right fun _ => (hstat j).symm ▸ Iff.rfl
    · show self.closed = _
      rw [h.closed]
      unfold closedSlots
      congr 2
      exact Finset.filter_congr fun j _ => (hstat j).symm ▸ Iff.rfl
    · show j < self.max_connection ∧ ((self.set i t).sockets j).status ≠ _
      rw [hstat]
      exact h.active j hj
  -- the slot was not free, nor is it now
  | @alive t hs ht =>
    have hnot := not_mem_free hfree hs
    refine ⟨⟨l, hnodup, hlist.congr fun j hj => ?_, fun j => ?_⟩, ?_, fun j hj => ?_⟩
    · show ((self.set i t).sockets j).fd = _
      rw [set_of_ne t (by rintro rfl; exact hnot hj)]
    · show _ ↔ j < self.max_connection ∧ ((self.set i t).sockets j).status = _
      rw [hfree]
      by_cases hj : j = i
      · rw [hj, set_self]
        constructor
        · rintro ⟨-, heq⟩
          rw [heq] at hs
          cases hs
        · rintro ⟨-, heq⟩
          rw [heq] at ht
          cases ht
      · rw [set_of_ne t hj]
    · show self.closed = _
      rw [h.closed]
      unfold closedSlots
      congr 2
      refine Finset.filter_congr fun j _ => ?_
      show _ ↔ ((self.set i t).sockets j).status = _
      by_cases hj : j = i
      · rw [hj, set_self]
        constructor
        · intro heq
          rw [heq] at hs
          cases hs
        · intro heq
          rw [heq] at ht
          cases ht
      · rw [set_of_ne t hj]
    · show j < self.max_connection ∧ ((self.set i t).sockets j).status ≠ _
      obtain ⟨hlt, hne⟩ := h.active j hj
      refine ⟨hlt, ?_⟩
      by_cases hji : j = i
      · rw [hji, set_self]
        intro heq
        rw [heq] at ht
        cases ht
      · rw [set_of_ne t hji]
        exact hne
  -- one more that is closed and not yet reported
  | @closed t hs ht =>
    have hnot := not_mem_free hfree hs
    refine ⟨⟨l, hnodup, hlist.congr fun j hj => ?_, fun j => ?_⟩, ?_, fun j hj => ?_⟩
    · show ((self.set i t).sockets j).fd = _
      rw [set_of_ne t (by rintro rfl; exact hnot hj)]
    · show _ ↔ j < self.max_connection ∧ ((self.set i t).sockets j).status = _
      rw [hfree]
      by_cases hj : j = i
      · rw [hj, set_self, ht]
        constructor
        · rintro ⟨-, heq⟩
          rw [heq] at hs
          cases hs
        · rintro ⟨-, heq⟩
          cases heq
      · rw [set_of_ne t hj]
    · show self.closed + 1 = _
      have hins : (self.settle i (t, true)).closedSlots = insert i self.closedSlots := by
        ext j
        rw [Finset.mem_insert, mem_closedSlots, mem_closedSlots]
        show j < self.max_connection ∧ ((self.set i t).sockets j).status = _ ↔ _
        by_cases hj : j = i
        · rw [hj, set_self]
          exact ⟨fun _ => .inl rfl, fun _ => ⟨hi, ht⟩⟩
        · rw [set_of_ne t hj]
          exact ⟨.inr, fun h => h.resolve_left hj⟩
      have hnew : i ∉ self.closedSlots := by
        rw [mem_closedSlots]
        rintro ⟨-, heq⟩
        rw [heq] at hs
        cases hs
      rw [hins, Finset.card_insert_of_notMem hnew, h.closed]
      push_cast
      rfl
    · show j < self.max_connection ∧ ((self.set i t).sockets j).status ≠ _
      obtain ⟨hlt, hne⟩ := h.active j hj
      refine ⟨hlt, ?_⟩
      by_cases hji : j = i
      · rw [hji, set_self, ht]
        exact nofun
      · rw [set_of_ne t hji]
        exact hne

/-- A socket in use stays one. -/
theorem Accounted.set_alive {s : Socket} (h : self.Accounted) (hi : i < self.max_connection)
    (hs : (self.sockets i).status.alive = true) (ht : s.status.alive = true) :
    (self.set i s).Accounted := h.settle hi (.alive hs ht)

/-- A socket whose class of status stays. -/
theorem Accounted.set_kept {s : Socket} (h : self.Accounted) (hi : i < self.max_connection)
    (hfd : s.fd = (self.sockets i).fd) (hstatus : s.status = (self.sockets i).status) :
    (self.set i s).Accounted := h.settle hi (.kept hfd hstatus)

/-- While something is closed it can be reported. -/
theorem Accounted.report (h : self.Accounted) (hpos : self.closed > 0) :
    self.report_closed.isSome = true := by
  have hne : self.closedSlots.Nonempty := by
    rw [← Finset.card_pos]
    have := h.closed
    omega
  obtain ⟨i, hi⟩ := hne
  obtain ⟨hlt, hstatus⟩ := mem_closedSlots.mp hi
  unfold report_closed
  rw [Option.isSome_map, List.find?_isSome]
  exact ⟨i, List.mem_range.mpr hlt, decide_eq_true hstatus⟩

/-! ## The functions -/

/-- A function for slot `i` keeps the accounts and everything but one socket's state. -/
structure Keeps (p p' : Pool) : Prop where
  accounted : p'.Accounted
  max_connection : p'.max_connection = p.max_connection
  active : p'.active = p.active

theorem Accounted.force_close {id : ℤ} (h : self.Accounted)
    (hrun : self.force_close_client id = some self') :
    self.Keeps self' ∧ ∀ j : ℕ, (j : ℤ) ≠ id → self'.sockets j = self.sockets j := by
  unfold force_close_client at hrun
  split at hrun
  · rename_i hid
    obtain rfl := Option.some.inj hrun
    refine ⟨⟨h.settle (by omega) Socket.force_close_client_move, rfl, rfl⟩, fun j hj => ?_⟩
    exact set_of_ne _ (by omega)
  · cases hrun

/-- Allocation closes other sockets only, unless it gives no block. -/
theorem Accounted.allocate {id fuel : ℕ} {size : ℤ} {r : Option ℕ} (h : self.Accounted)
    (hrun : self.allocate id size fuel = some (self', r)) :
    self.Keeps self' ∧ (r ≠ none → self'.sockets id = self.sockets id) := by
  induction fuel generalizing self with
  | zero => cases hrun
  | succ fuel ih =>
    unfold Pool.allocate at hrun
    obtain ⟨⟨rb, blk⟩, -, hrun⟩ := Option.bind_eq_some_iff.mp hrun
    cases blk with
    | some blk =>
      cases hrun
      exact ⟨⟨h.congr rfl rfl rfl rfl (.inl rfl), rfl, rfl⟩, fun _ => rfl⟩
    | none =>
      obtain ⟨⟨rb', cid⟩, -, hrun⟩ := Option.bind_eq_some_iff.mp hrun
      obtain ⟨p, hclose, hrun⟩ := Option.bind_eq_some_iff.mp hrun
      have hp : Accounted { self with rb := rb' } := h.congr rfl rfl rfl rfl (.inl rfl)
      obtain ⟨hkeeps, hothers⟩ := hp.force_close hclose
      split at hrun
      · cases hrun
        exact ⟨⟨hkeeps.accounted, hkeeps.max_connection, hkeeps.active⟩, fun hne => absurd rfl hne⟩
      · rename_i hid
        obtain ⟨hrest, hsame⟩ := ih hkeeps.accounted hrun
        refine ⟨⟨hrest.accounted, hrest.max_connection.trans hkeeps.max_connection,
          hrest.active.trans hkeeps.active⟩, fun hr => (hsame hr).trans ?_⟩
        exact hothers id (by omega)

theorem Accounted.link_node {id blk : ℕ} (h : self.Accounted) (hid : id < self.max_connection)
    (hrun : self.link_node id blk = some self') :
    self.Keeps self' ∧ (self'.sockets id).status = (self.sockets id).status := by
  unfold Pool.link_node at hrun
  split at hrun
  · obtain ⟨rb, -, rfl⟩ := Option.map_eq_some_iff.mp hrun
    exact ⟨⟨h.congr rfl rfl rfl rfl (.inl rfl), rfl, rfl⟩, rfl⟩
  · obtain rfl := Option.some.inj hrun
    have hp : Accounted { self with rb := self.rb.setId blk id } :=
      h.congr rfl rfl rfl rfl (.inl rfl)
    refine ⟨⟨hp.set_kept hid rfl rfl, rfl, rfl⟩, ?_⟩
    rw [set_self]

theorem Accounted.close_active {id : ℕ} (h : self.Accounted)
    (hrun : self.close_active id = some self') : self.Keeps self' := by
  unfold Pool.close_active at hrun
  obtain ⟨rb, -, hrun⟩ := Option.bind_eq_some_iff.mp hrun
  obtain ⟨rb', -, hrun⟩ := Option.bind_eq_some_iff.mp hrun
  have hp : Accounted { self with rb := rb' } := h.congr rfl rfl rfl rfl (.inl rfl)
  obtain ⟨hkeeps, -⟩ := hp.force_close hrun
  exact ⟨hkeeps.accounted, hkeeps.max_connection, hkeeps.active⟩

/-- A socket in use goes on in another status of use. -/
theorem Accounted.setStatus {id : ℕ} {status : SocketStatus} (h : self.Accounted)
    (hid : id < self.max_connection) (hs : (self.sockets id).status.alive = true)
    (ht : status.alive = true) : self.Keeps (self.setStatus id status) :=
  ⟨h.set_alive hid hs ht, rfl, rfl⟩

theorem Accounted.fill {id blk : ℕ} {sz rd : ℤ} {env : List ReadResult} {b : Bool}
    (h : self.Accounted) (hid : id < self.max_connection)
    (hs : (self.sockets id).status.alive = true)
    (hrun : self.fill id blk sz rd env = some (self', b)) :
    self.Keeps self' ∧ (b = true → (self'.sockets id).status.alive = true) := by
  have hrb : ∀ rb : Ring, Accounted { self with rb := rb } := fun rb =>
    h.congr rfl rfl rfl rfl (.inl rfl)
  have hsuspend : ∀ rb : Ring, self.Keeps (({ self with rb := rb }).setStatus id .SUSPEND) :=
    fun rb => ⟨(hrb rb).set_alive hid hs rfl, rfl, rfl⟩
  have hclose : ∀ (rb : Ring) (p : Pool), ({ self with rb := rb }).close_active id = some p →
      self.Keeps p := by
    intro rb p hp
    obtain ⟨h1, h2, h3⟩ := (hrb rb).close_active hp
    exact ⟨h1, h2, h3⟩
  induction env with
  | nil =>
    obtain ⟨rb, -, heq⟩ := Option.map_eq_some_iff.mp hrun
    cases heq
    exact ⟨hsuspend rb, nofun⟩
  | cons e env ih =>
    cases e with
    | EINTR => exact ih hrun
    | EWOULDBLOCK =>
      obtain ⟨rb, -, heq⟩ := Option.map_eq_some_iff.mp hrun
      cases heq
      exact ⟨hsuspend rb, nofun⟩
    | failed =>
      obtain ⟨rb, -, hrun⟩ := Option.bind_eq_some_iff.mp hrun
      obtain ⟨p, hp, heq⟩ := Option.map_eq_some_iff.mp hrun
      cases heq
      exact ⟨hclose rb _ hp, nofun⟩
    | bytes data =>
      unfold Pool.fill at hrun
      simp only at hrun
      generalize (if (self.sockets id).status = SocketStatus.FIRST_POLLIN then _ else 0) = n at hrun
      generalize (if n = 0 then _ else _ : Memory) = mem at hrun
      split at hrun
      · obtain ⟨rb, -, hrun⟩ := Option.bind_eq_some_iff.mp hrun
        obtain ⟨p, hp, heq⟩ := Option.map_eq_some_iff.mp hrun
        cases heq
        exact ⟨hclose rb _ hp, nofun⟩
      · split at hrun
        · cases hrun
          exact ⟨hsuspend _, nofun⟩
        · obtain ⟨rb, -, hrun⟩ := Option.bind_eq_some_iff.mp hrun
          split at hrun
          · obtain ⟨p, hp, heq⟩ := Option.map_eq_some_iff.mp hrun
            cases heq
            obtain ⟨hkeeps, hstatus⟩ := (hrb rb).link_node hid hp
            have hsus : p.Keeps (p.setStatus id .SUSPEND) :=
              hkeeps.accounted.setStatus (hkeeps.max_connection ▸ hid) (hstatus ▸ hs) rfl
            exact ⟨⟨hsus.accounted, hkeeps.max_connection, hkeeps.active⟩, nofun⟩
          · cases hrun
            refine ⟨⟨(hrb rb).set_alive hid hs rfl, rfl, rfl⟩, fun _ => ?_⟩
            unfold Pool.setStatus
            rw [set_self]
            rfl

theorem Accounted.gather {id : ℕ} {size : ℤ} {r : Option ℤ} (h : self.Accounted)
    (hid : id < self.max_connection) (hrun : self.gather id size = some (self', r)) :
    self.Keeps self' := by
  unfold Pool.gather at hrun
  obtain ⟨⟨n, ptr⟩, -, hrun⟩ := Option.bind_eq_some_iff.mp hrun
  cases ptr with
  | some ptr =>
    cases hrun
    exact ⟨h.congr rfl rfl rfl rfl (.inl rfl), rfl, rfl⟩
  | none =>
    simp only at hrun
    split at hrun
    · obtain ⟨⟨p, temp⟩, halloc, hrun⟩ := Option.bind_eq_some_iff.mp hrun
      obtain ⟨hkeeps, -⟩ := h.allocate halloc
      cases temp with
      | none =>
        cases hrun
        exact hkeeps
      | some temp =>
        obtain ⟨rb, -, hrun⟩ := Option.bind_eq_some_iff.mp hrun
        obtain ⟨node, -, hrun⟩ := Option.bind_eq_some_iff.mp hrun
        obtain ⟨rb', -, heq⟩ := Option.map_eq_some_iff.mp hrun
        cases heq
        have hp : Accounted { p with rb := rb', skip := p.skip + size } :=
          hkeeps.accounted.congr rfl rfl rfl rfl (.inl rfl)
        exact ⟨hp.set_kept (hkeeps.max_connection ▸ hid) rfl rfl, hkeeps.max_connection,
          hkeeps.active⟩
    · cases hrun

theorem Accounted.receive {id : ℕ} {size sz rd : ℤ} {env : List ReadResult} {r : Option ℤ}
    (h : self.Accounted) (hid : id < self.max_connection)
    (hs : (self.sockets id).status.alive = true)
    (hrun : self.receive id size sz rd env = some (self', r)) : self.Keeps self' := by
  obtain ⟨⟨p, blk⟩, halloc, hrun⟩ := Option.bind_eq_some_iff.mp hrun
  obtain ⟨hkeeps, hsame⟩ := h.allocate halloc
  cases blk with
  | none =>
    cases hrun
    exact hkeeps
  | some blk =>
    obtain ⟨⟨p₁, b⟩, hfill, hrun⟩ := Option.bind_eq_some_iff.mp hrun
    have hid₁ : id < p.max_connection := hkeeps.max_connection ▸ hid
    obtain ⟨hkeeps₁, -⟩ := hkeeps.accounted.fill hid₁ (hsame nofun ▸ hs) hfill
    have hto : ∀ q : Pool, p₁.Keeps q → self.Keeps q := fun q hq =>
      ⟨hq.accounted, hq.max_connection.trans
        (hkeeps₁.max_connection.trans hkeeps.max_connection),
        hq.active.trans (hkeeps₁.active.trans hkeeps.active)⟩
    cases b with
    | false =>
      cases hrun
      exact hto _ ⟨hkeeps₁.accounted, rfl, rfl⟩
    | true =>
      obtain ⟨p₂, hlink, hrun⟩ := Option.bind_eq_some_iff.mp hrun
      have hid₂ : id < p₁.max_connection := hkeeps₁.max_connection ▸ hid₁
      obtain ⟨hkeeps₂, -⟩ := hkeeps₁.accounted.link_node hid₂ hlink
      have hgather := hkeeps₂.accounted.gather (hkeeps₂.max_connection ▸ hid₂) hrun
      exact hto _ ⟨hgather.accounted, hgather.max_connection.trans hkeeps₂.max_connection,
        hgather.active.trans hkeeps₂.active⟩

/-- What a pull for the active slot comes to. -/
inductive PullStep (p : Pool) (id : ℕ) (size : ℤ) (env : List ReadResult) :
    Pool → Option ℤ → Prop
  | found {n ptr : ℤ} (hread : p.ringbuffer_read id size = some (n, some ptr)) :
      PullStep p id size env { p with skip := p.skip + size } (some ptr)
  /-- The socket is closed, suspended or half closed. -/
  | missed : PullStep p id size env p none
  | suspended (hstatus : (p.sockets id).status = .READ) :
      PullStep p id size env (p.setStatus id .SUSPEND) none
  | received {n : ℤ} {p' : Pool} {r : Option ℤ}
      (hread : p.ringbuffer_read id size = some (n, none))
      (hstatus : (p.sockets id).status = .POLLIN ∨ (p.sockets id).status = .FIRST_POLLIN)
      (hrun : p.receive id size (size - n)
        (if READBLOCKSIZE < size - n then size - n else READBLOCKSIZE) env = some (p', r)) :
      PullStep p id size env p' r

theorem pull_step {id : ℕ} {size : ℤ} {env : List ReadResult} {r : Option ℤ}
    (hactive : self.active = some id) (hrun : self.mread_pull size env = some (self', r)) :
    self.PullStep id size env self' r := by
  unfold mread_pull at hrun
  rw [hactive] at hrun
  obtain ⟨⟨n, ptr⟩, hread, hrun⟩ := Option.bind_eq_some_iff.mp hrun
  cases ptr with
  | some ptr =>
    cases hrun
    rw [← hactive]
    exact .found hread
  | none =>
    simp only at hrun
    cases hstatus : (self.sockets id).status with
    | INVALID =>
      rw [hstatus] at hrun
      cases hrun
    | CONNECTED =>
      rw [hstatus] at hrun
      cases hrun
    | CLOSED =>
      rw [hstatus] at hrun
      cases hrun
      exact .missed
    | SUSPEND =>
      rw [hstatus] at hrun
      cases hrun
      exact .missed
    | READ =>
      rw [hstatus] at hrun
      cases hrun
      exact .suspended hstatus
    | POLLIN =>
      rw [hstatus] at hrun
      exact .received hread (.inl hstatus) hrun
    | FIRST_POLLIN =>
      rw [hstatus] at hrun
      exact .received hread (.inr hstatus) hrun
    | HALFCLOSE =>
      rw [hstatus] at hrun
      simp only at hrun
      split at hrun
      · cases hrun
        exact .missed
      · cases hrun

/-- Without an active slot there is nothing to pull. -/
theorem pull_idle {size : ℤ} {env : List ReadResult} {r : Option ℤ} (hactive : self.active = none)
    (hrun : self.mread_pull size env = some (self', r)) : self' = self ∧ r = none := by
  unfold mread_pull at hrun
  rw [hactive] at hrun
  cases hrun
  exact ⟨rfl, rfl⟩

/-- Only an open socket is read from. -/
theorem reads_open {id : ℕ}
    (h : (self.sockets id).status = .POLLIN ∨ (self.sockets id).status = .FIRST_POLLIN) :
    (self.sockets id).status.isOpen = true := by
  rcases h with h | h <;> rw [h] <;> rfl

theorem Accounted.pull {size : ℤ} {env : List ReadResult} {r : Option ℤ} (h : self.Accounted)
    (hrun : self.mread_pull size env = some (self', r)) : self.Keeps self' := by
  cases ha : self.active with
  | none =>
    obtain ⟨rfl, -⟩ := pull_idle ha hrun
    exact ⟨h, rfl, rfl⟩
  | some id =>
    obtain ⟨hid, -⟩ := h.active id ha
    cases pull_step ha hrun with
    | found _ => exact ⟨h.congr rfl rfl rfl rfl (.inl rfl), rfl, rfl⟩
    | missed => exact ⟨h, rfl, rfl⟩
    | suspended hstatus => exact h.setStatus hid (by rw [hstatus]; rfl) rfl
    | received _ hstatus hrun =>
      exact h.receive hid (Socket.isOpen_alive (reads_open hstatus)) hrun

/-- The active slot, closed and reported, goes to the front of the free list. -/
theorem Accounted.release {id : ℕ} {s : Socket} (h : self.Accounted)
    (hid : id < self.max_connection) (hclosed : (self.sockets id).status = .CLOSED)
    (hs : s.status = .INVALID)
    (hfd : s.fd = match self.free_socket with | some i => (i : ℤ) | none => -1) :
    Accounted { self with
      sockets := Function.update self.sockets id s
      closed := self.closed - 1
      free_socket := some id
      skip := 0
      active := none } := by
  obtain ⟨l, hnodup, hlist, hfree⟩ := h.free
  have hnot : id ∉ l := by
    intro hmem
    have := ((hfree id).mp hmem).2
    rw [hclosed] at this
    cases this
  have hother : ∀ j, j ≠ id → Function.update self.sockets id s j = self.sockets j := fun j hj =>
    Function.update_of_ne hj ..
  refine ⟨⟨id :: l, List.nodup_cons.mpr ⟨hnot, hnodup⟩, .push hfd hlist hnot, fun j => ?_⟩, ?_,
    nofun⟩
  · show _ ↔ j < self.max_connection ∧ (Function.update self.sockets id s j).status = _
    rw [List.mem_cons, hfree]
    by_cases hj : j = id
    · rw [hj, Function.update_self]
      exact ⟨fun _ => ⟨hid, hs⟩, fun _ => .inl rfl⟩
    · rw [hother j hj]
      exact ⟨fun h => h.resolve_left hj, .inr⟩
  · show self.closed - 1 = _
    have herase : closedSlots { self with
        sockets := Function.update self.sockets id s
        closed := self.closed - 1
        free_socket := some id
        skip := 0
        active := none } = self.closedSlots.erase id := by
      ext j
      rw [Finset.mem_erase, mem_closedSlots, mem_closedSlots]
      show j < self.max_connection ∧ (Function.update self.sockets id s j).status = _ ↔ _
      by_cases hj : j = id
      · rw [hj, Function.update_self, hs]
        constructor
        · rintro ⟨-, heq⟩
          cases heq
        · exact fun h => absurd rfl h.1
      · rw [hother j hj]
        exact ⟨fun h => ⟨hj, h⟩, fun h => h.2⟩
    have hmem : id ∈ self.closedSlots := mem_closedSlots.mpr ⟨hid, hclosed⟩
    have hcard := Finset.card_erase_add_one hmem
    rw [herase, h.closed]
    omega

theorem Accounted.yield (h : self.Accounted) (hrun : self.mread_yield = some self') :
    self'.Accounted ∧ self'.max_connection = self.max_connection := by
  unfold mread_yield at hrun
  cases ha : self.active with
  | none =>
    rw [ha] at hrun
    cases hrun
    exact ⟨h, rfl⟩
  | some id =>
    rw [ha] at hrun
    obtain ⟨hid, -⟩ := h.active id ha
    obtain ⟨rb, -, hrun⟩ := Option.bind_eq_some_iff.mp hrun
    have hp : Accounted (({ self with rb := rb }).set id { self.sockets id with temp := none }) :=
      Accounted.set_kept (h.congr rfl rfl rfl rfl (.inl rfl)) hid rfl rfl
    have hpid : (({ self with rb := rb } : Pool).set id
        { self.sockets id with temp := none }).sockets id =
          { self.sockets id with temp := none } := set_self _
    simp only [set_self] at hrun
    split at hrun
    · rename_i hclosed
      obtain rfl := Option.some.inj hrun
      exact ⟨hp.release hid (by rw [hpid]; exact hclosed.1) rfl rfl, rfl⟩
    · split at hrun
      · obtain rfl := Option.some.inj hrun
        exact ⟨hp.congr rfl rfl rfl rfl (.inr rfl), rfl⟩
      · obtain ⟨r, -, rfl⟩ := Option.map_eq_some_iff.mp hrun
        refine ⟨Accounted.congr (Accounted.set_kept (s := { self.sockets id with
          temp := none, node := r.2 }) hp hid ?_ ?_) rfl rfl ?_ rfl ?_, rfl⟩
        · rw [hpid]
        · rw [hpid]
        · rfl
        · show (if r.2 = none then none else some id) = self.active ∨ _
          rw [ha]
          split
          · exact .inr rfl
          · exact .inl rfl

theorem Accounted.mread_closed {b : Bool} (h : self.Accounted)
    (hrun : self.mread_closed = some (self', b)) :
    self'.Accounted ∧ self'.max_connection = self.max_connection := by
  unfold Pool.mread_closed at hrun
  split at hrun
  · cases hrun
    exact ⟨h, rfl⟩
  · split at hrun
    · obtain ⟨p, hp, heq⟩ := Option.map_eq_some_iff.mp hrun
      cases heq
      exact h.yield hp
    · cases hrun
      exact ⟨h, rfl⟩

/-- A registered socket takes the first slot of the free list. -/
theorem Accounted.add_client {fd : ℕ} (h : self.Accounted) {r : Option ℕ}
    (hrun : self.add_client fd true = (self', r)) :
    self'.Accounted ∧ self'.max_connection = self.max_connection ∧ self'.active = self.active := by
  obtain ⟨l, hnodup, hlist, hfree⟩ := h.free
  unfold Pool.add_client alloc_socket at hrun
  cases hfirst : self.free_socket with
  | none =>
    rw [hfirst] at hrun
    cases hrun
    exact ⟨h, rfl, rfl⟩
  | some i =>
    rw [hfirst] at hrun
    cases hrun
    rw [hfirst] at hlist
    cases l with
    | nil => cases hlist
    | cons j l =>
      obtain ⟨heq, hrest⟩ := hlist
      obtain rfl := Option.some.inj heq
      obtain ⟨hnot, hnodup'⟩ := List.nodup_cons.mp hnodup
      obtain ⟨hlt, hstatus⟩ := (hfree i).mp (List.mem_cons_self ..)
      refine ⟨⟨⟨l, hnodup', ?_, fun j => ?_⟩, ?_, fun j hj => ?_⟩, rfl, rfl⟩
      · exact hrest.congr fun j hj => by
          rw [set_of_ne _ (by rintro rfl; exact hnot hj)]
      · by_cases hj : j = i
        · rw [hj, set_self]
          constructor
          · exact fun hmem => absurd hmem hnot
          · rintro ⟨-, heq⟩
            cases heq
        · rw [set_of_ne _ hj]
          have := hfree j
          rw [List.mem_cons] at this
          exact ⟨fun hmem => this.mp (.inr hmem), fun h => (this.mpr h).resolve_left hj⟩
      · show self.closed = _
        rw [h.closed]
        congr 2
        ext j
        rw [mem_closedSlots, mem_closedSlots]
        by_cases hj : j = i
        · rw [hj, set_self, hstatus]
          constructor <;> rintro ⟨-, heq⟩ <;> cases heq
        · rw [set_of_ne _ hj]
          exact Iff.rfl
      · obtain ⟨h1, h2⟩ := h.active j hj
        refine ⟨h1, ?_⟩
        by_cases hji : j = i
        · rw [hji, set_self]
          exact nofun
        · rw [set_of_ne _ hji]
          exact h2

/-- No socket of the events is refused by `epoll_ctl`. -/
def Registers (queue : List PollEvent) : Prop :=
  ∀ fd, PollEvent.listen (.connected fd false) ∉ queue

theorem Accounted.pollQueue {queue : List PollEvent} {r : Option ℕ} (h : self.Accounted)
    (hreg : Registers queue) (hrun : self.pollQueue queue = some (self', r)) :
    self'.Accounted ∧ self'.max_connection = self.max_connection := by
  induction queue generalizing self with
  | nil =>
    cases hrun
    exact ⟨h.congr rfl rfl rfl rfl (.inr rfl), rfl⟩
  | cons e queue ih =>
    have hreg' : Registers queue := fun fd hmem => hreg fd (List.mem_cons_of_mem _ hmem)
    cases e with
    | listen accepted =>
      cases accepted with
      | failed => exact ih h hreg' hrun
      | connected fd registered =>
        cases registered with
        | false => exact absurd (List.mem_cons_self ..) (hreg fd)
        | true =>
          rw [Pool.pollQueue] at hrun
          rcases hadd : self.add_client fd true with ⟨p, _ | i⟩ <;> rw [hadd] at hrun <;>
            obtain ⟨hp, hmax, -⟩ := h.add_client hadd
          · obtain ⟨h1, h2⟩ := ih hp hreg' hrun
            exact ⟨h1, h2.trans hmax⟩
          · cases hrun
            exact ⟨hp.congr rfl rfl rfl rfl (.inr rfl), hmax⟩
    | socket i readflag writeflag =>
      unfold Pool.pollQueue at hrun
      split at hrun
      · rename_i hi
        simp only at hrun
        have hacc : (self.written i writeflag).Accounted ∧
            (self.written i writeflag).max_connection = self.max_connection := by
          cases writeflag with
          | none => exact ⟨h, rfl⟩
          | some env => exact ⟨h.settle hi (Socket.writable_move env), rfl⟩
        generalize self.written i writeflag = p at hrun hacc
        split at hrun
        · rename_i hread
          cases hrun
          refine ⟨?_, hacc.2⟩
          have hset : Accounted (p.set i { p.sockets i with
              status := if (p.sockets i).status = SocketStatus.CONNECTED then .FIRST_POLLIN
                else .POLLIN }) := by
            refine hacc.1.set_alive (hacc.2 ▸ hi) (Socket.isOpen_alive hread.2) ?_
            simp only
            split <;> rfl
          refine ⟨hset.free, hset.closed, fun j hj => ?_⟩
          obtain rfl := Option.some.inj hj
          refine ⟨hacc.2 ▸ hi, ?_⟩
          rw [set_self]
          simp only
          split <;> exact nofun
        · obtain ⟨h1, h2⟩ := ih hacc.1 hreg' hrun
          exact ⟨h1, h2.trans hacc.2⟩
      · cases hrun

theorem Accounted.poll {wait : Option (List PollEvent)} {r : Option ℕ} (h : self.Accounted)
    (hqueue : Registers self.queue) (hwait : ∀ queue, wait = some queue → Registers queue)
    (hrun : self.mread_poll wait = some (self', r)) :
    self'.Accounted ∧ self'.max_connection = self.max_connection := by
  have hskip : Accounted { self with skip := 0 } := h.congr rfl rfl rfl rfl (.inl rfl)
  unfold mread_poll at hrun
  simp only at hrun
  split at hrun
  · cases hrun
    exact ⟨hskip, rfl⟩
  · split at hrun
    · split at hrun
      · unfold report_closed at hrun
        obtain ⟨i, hi, heq⟩ := Option.map_eq_some_iff.mp hrun
        cases heq
        have hfound := List.find?_some hi
        have hmem := List.mem_of_find?_eq_some hi
        refine ⟨⟨h.free, h.closed, fun j hj => ?_⟩, rfl⟩
        obtain rfl := Option.some.inj hj
        refine ⟨List.mem_range.mp hmem, ?_⟩
        rw [of_decide_eq_true hfound]
        exact nofun
      · cases wait with
        | none =>
          cases hrun
          exact ⟨h.congr rfl rfl rfl rfl (.inr rfl), rfl⟩
        | some queue => exact hskip.pollQueue (hwait queue rfl) hrun
    · exact hskip.pollQueue hqueue hrun

/-! ## Over whole runs -/

theorem create_freeList {max i : ℕ} (hi : i < max) :
    FreeList (create_sockets max) (some i) (List.range' i (max - i)) := by
  obtain ⟨n, hn⟩ : ∃ n, max - i = n + 1 := ⟨max - i - 1, by omega⟩
  rw [hn]
  induction n generalizing i with
  | zero =>
    refine ⟨rfl, ?_⟩
    show (if (create_sockets max i).fd < 0 then none else _) = none
    have hfd : (create_sockets max i).fd = -1 := by
      unfold create_sockets
      exact if_pos (by omega)
    rw [hfd]
    rfl
  | succ n ih =>
    refine ⟨rfl, ?_⟩
    have hfd : (create_sockets max i).fd = i + 1 := by
      unfold create_sockets
      exact if_neg (by omega)
    rw [hfd, if_neg (by omega)]
    exact ih (by omega) (by omega)

theorem Accounted.create {max : ℕ} {buffer_size : ℤ} (hmax : 0 < max) :
    (mread_create max buffer_size).Accounted := by
  refine ⟨⟨List.range' 0 (max - 0), List.nodup_range' .., create_freeList hmax, fun i => ?_⟩, ?_,
    nofun⟩
  · rw [List.mem_range'_1]
    show _ ↔ i < max ∧ SocketStatus.INVALID = .INVALID
    constructor
    · rintro ⟨-, h⟩
      exact ⟨by omega, rfl⟩
    · rintro ⟨h, -⟩
      omega
  · have hnone : (mread_create max buffer_size).closedSlots = ∅ := by
      ext i
      rw [mem_closedSlots]
      constructor
      · rintro ⟨-, heq⟩
        cases heq
      · exact fun h => absurd h (Finset.notMem_empty i)
    rw [hnone]
    rfl

/-- No socket of the call is refused by `epoll_ctl`. -/
def Registered (self : Pool) (op : PoolOp) : Prop :=
  match op with
  | .poll wait => Registers self.queue ∧ ∀ queue, wait = some queue → Registers queue
  | _ => True

theorem Accounted.exec {op : PoolOp} (h : self.Accounted) (hreg : self.Registered op)
    (hrun : self.exec op = some self') : self'.Accounted := by
  cases op with
  | poll wait =>
    obtain ⟨⟨p, r⟩, hp, rfl⟩ := Option.map_eq_some_iff.mp hrun
    exact (h.poll hreg.1 hreg.2 hp).1
  | pull size env =>
    obtain ⟨⟨p, r⟩, hp, rfl⟩ := Option.map_eq_some_iff.mp hrun
    exact (h.pull hp).accounted
  | yield => exact (h.yield hrun).1
  | closed =>
    obtain ⟨⟨p, r⟩, hp, rfl⟩ := Option.map_eq_some_iff.mp hrun
    exact (h.mread_closed hp).1
  | push id buffer env =>
    simp only [Pool.exec] at hrun
    split at hrun
    · rename_i hid
      obtain rfl := Option.some.inj hrun
      exact h.settle hid (Socket.mread_push_move buffer env)
    · cases hrun
  | close_client id =>
    simp only [Pool.exec] at hrun
    split at hrun
    · rename_i hid
      obtain rfl := Option.some.inj hrun
      exact h.settle hid Socket.mread_close_client_move
    · cases hrun

theorem accounted {max : ℕ} {buffer_size : ℤ} :
    ((system max buffer_size).restrict Registered).Inductive Accounted where
  init := by
    rintro self ⟨hmax, rfl⟩
    exact .create hmax
  step _ _ _ _ h hstep := h.exec hstep.1 hstep.2

/-- Every slot is in just one place, the closed ones are counted, and one of them can be
reported while there are any. -/
structure Conserved (p : Pool) : Prop where
  slots : ∃ l : List ℕ, l.Nodup ∧ FreeList p.sockets p.free_socket l ∧
    (∀ i ∈ l, i < p.max_connection) ∧ ∀ i, i < p.max_connection →
      (i ∈ l ∧ (p.sockets i).status.alive = false ∧ (p.sockets i).status ≠ .CLOSED) ∨
      (i ∉ l ∧ (p.sockets i).status.alive = true) ∨
      (i ∉ l ∧ (p.sockets i).status = .CLOSED)
  closed : p.closed = p.closedSlots.card
  report : p.closed > 0 → p.report_closed.isSome = true

/-- **Slots.** In a run in which `epoll_ctl` refuses no socket, every slot is on the free
list, in use or closed, and `closed` counts the closed ones. -/
theorem slots_conserved {max : ℕ} {buffer_size : ℤ}
    (h : ((system max buffer_size).restrict Registered).Reachable self) : self.Conserved := by
  have hacc := accounted.invariant _ h
  obtain ⟨l, hnodup, hlist, hfree⟩ := hacc.free
  refine ⟨⟨l, hnodup, hlist, fun i hi => ((hfree i).mp hi).1, fun i hi => ?_⟩, hacc.closed,
    hacc.report⟩
  have hmem := hfree i
  cases hstatus : (self.sockets i).status with
  | INVALID => exact .inl ⟨hmem.mpr ⟨hi, hstatus⟩, rfl, nofun⟩
  | CLOSED =>
    refine .inr (.inr ⟨fun h => ?_, rfl⟩)
    cases hstatus.symm.trans (hmem.mp h).2
  | _ =>
    refine .inr (.inl ⟨fun h => ?_, rfl⟩)
    cases hstatus.symm.trans (hmem.mp h).2

/-- A socket is accepted, and the next one finds the pool full. -/
theorem slots_conserved_full :
    ∃ self, ((system 1 4096).restrict Registered).Reachable self ∧
      (self.sockets 0).status = .CONNECTED ∧ self.Conserved := by
  have hstart : ((system 1 4096).restrict Registered).Reachable (mread_create 1 4096) :=
    .init ⟨Nat.one_pos, rfl⟩
  have hreg : (mread_create 1 4096).Registered
      (.poll (some [.listen (.connected 5 true), .listen (.connected 6 true)])) := by
    refine ⟨fun fd => List.not_mem_nil, ?_⟩
    rintro queue hq fd hmem
    cases hq
    simp at hmem
  obtain ⟨self, hrun⟩ := Option.isSome_iff_exists.mp
    (show ((mread_create 1 4096).exec
      (.poll (some [.listen (.connected 5 true), .listen (.connected 6 true)]))).isSome = true
      from rfl)
  have hreach := TSys.Reachable.step hstart ⟨hreg, hrun⟩
  refine ⟨self, hreach, ?_, slots_conserved hreach⟩
  cases hrun
  rfl

/-- A socket that `epoll_ctl` refuses: its slot is on no list and never comes back. -/
theorem slot_leaked : ∃ self, (system 1 4096).Reachable self ∧ ¬self.Conserved := by
  have hstart : (system 1 4096).Reachable (mread_create 1 4096) := .init ⟨Nat.one_pos, rfl⟩
  obtain ⟨self, hrun⟩ := Option.isSome_iff_exists.mp
    (show ((mread_create 1 4096).exec (.poll (some [.listen (.connected 5 false)]))).isSome = true
      from rfl)
  refine ⟨self, .step hstart hrun, fun h => ?_⟩
  obtain ⟨l, -, hlist, -, hslots⟩ := h.slots
  have hfirst : self.free_socket = none := by
    cases hrun
    rfl
  have hstatus : self.max_connection = 1 ∧ (self.sockets 0).status = .INVALID := by
    cases hrun
    exact ⟨rfl, rfl⟩
  have hnil : l = [] := by
    cases l with
    | nil => rfl
    | cons j l =>
      rw [hfirst] at hlist
      cases hlist.1
  have hone := hslots 0 (by omega)
  rw [hstatus.2, hnil] at hone
  rcases hone with ⟨h, -⟩ | ⟨-, h⟩ | ⟨-, h⟩
  · exact absurd h List.not_mem_nil
  · cases h
  · cases h

end Pool

end DnServer.Gate
