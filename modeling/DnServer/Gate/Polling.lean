import DnServer.Gate.Calls
import DnServer.Gate.Reading

/-!
# What a poll gives out

A poll goes on with the slot that has read and has bytes left. Otherwise it gives out a
closed slot, one that a client came to, or one with something to read. It leaves the bytes
of every slot, and so do writes; a yield takes what was pulled off those of its slot.
-/

namespace DnServer.Gate

open DnServer.Lib

/-- What becomes of a socket that is not given out. -/
inductive Socket.Settled (s : Socket) : Socket → Prop
  | kept {t : Socket} : t.status = s.status → t.node = s.node → Settled s t
  | closed {t : Socket} : s.status = .HALFCLOSE → t.status = .CLOSED → Settled s t
  | accepted {t : Socket} : s.status = .INVALID → t.status = .CONNECTED → t.node = none → Settled s t

namespace Socket

variable {s t u : Socket}

theorem Settled.refl (s : Socket) : s.Settled s := .kept rfl rfl

theorem Settled.trans (h : s.Settled t) (h' : t.Settled u) : s.Settled u := by
  cases h with
  | kept hs hn =>
    cases h' with
    | kept hs' hn' => exact .kept (hs'.trans hs) (hn'.trans hn)
    | closed hs' hc => exact .closed (hs.symm.trans hs') hc
    | accepted hs' hc hn' => exact .accepted (hs.symm.trans hs') hc hn'
  | closed hs hc =>
    cases h' with
    | kept hs' _ => exact .closed hs (hs'.trans hc)
    | closed hs' _ =>
      rw [hc] at hs'
      cases hs'
    | accepted hs' _ _ =>
      rw [hc] at hs'
      cases hs'
  | accepted hs hc hn =>
    cases h' with
    | kept hs' hn' => exact .accepted hs (hs'.trans hc) (hn'.trans hn)
    | closed hs' _ =>
      rw [hc] at hs'
      cases hs'
    | accepted hs' _ _ =>
      rw [hc] at hs'
      cases hs'

/-- A socket that is open after it was open before, or is new. -/
theorem Settled.of_open (h : s.Settled t) (ht : t.status.isOpen = true) :
    (t.status = s.status ∧ t.node = s.node) ∨
      (s.status = .INVALID ∧ t.status = .CONNECTED ∧ t.node = none) := by
  cases h with
  | kept hs hn => exact .inl ⟨hs, hn⟩
  | closed _ hc =>
    rw [hc] at ht
    cases ht
  | accepted hs hc hn => exact .inr ⟨hs, hc, hn⟩

theorem try_close_settled (hs : t.status = s.status) (hn : t.node = s.node) :
    s.Settled t.try_close.1 := by
  have hquiet : s.Settled t.quiet := .kept (quiet_spec.2.trans hs) (quiet_chains.1.trans hn)
  rw [try_close_eq]
  split
  · exact hquiet
  · rename_i hhalf
    rw [not_not] at hhalf
    split
    · exact .closed (hs.symm.trans hhalf) rfl
    · exact hquiet

theorem writable_settled (env : List WriteResult) : s.Settled (s.writable env).1 := by
  unfold writable
  split
  · exact .refl s
  · exact try_close_settled rfl rfl

end Socket

namespace Pool

variable {self self' : Pool} {l : List ℕ} {id i : ℕ}

/-- The slot has read, and the gate goes on with it. -/
def GoesOn (self : Pool) (i : ℕ) : Prop :=
  self.active = some i ∧ (self.sockets i).status = .READ

/-- What a poll gives out when it does not go on with a slot. -/
inductive Polled (p p' : Pool) : Option ℕ → Prop
  | idle : p'.active = none → (∀ j, (p.sockets j).Settled (p'.sockets j)) → Polled p p' none
  | accepted {i : ℕ} : p'.active = none → (∀ j, (p.sockets j).Settled (p'.sockets j)) →
      Polled p p' (some i)
  | reported {i : ℕ} : p'.active = some i → (p'.sockets i).status = .CLOSED →
      (∀ j, (p.sockets j).Settled (p'.sockets j)) → Polled p p' (some i)
  | ready {i : ℕ} {q : ℕ → Socket} : p'.active = some i → (∀ j, (p.sockets j).Settled (q j)) →
      (q i).status.isOpen = true → p'.sockets = Function.update q i { q i with
        status := if (q i).status = .CONNECTED then .FIRST_POLLIN else .POLLIN } →
      Polled p p' (some i)

theorem Polled.of_settled {p : Pool} {r : Option ℕ}
    (h : ∀ j, (self.sockets j).Settled (p.sockets j)) (h' : p.Polled self' r) :
    self.Polled self' r := by
  cases h' with
  | idle hact hs => exact .idle hact fun j => (h j).trans (hs j)
  | accepted hact hs => exact .accepted hact fun j => (h j).trans (hs j)
  | reported hact hc hs => exact .reported hact hc fun j => (h j).trans (hs j)
  | ready hact hs hopen heq => exact .ready hact (fun j => (h j).trans (hs j)) hopen heq

theorem set_settled {s : Socket} (h : (self.sockets i).Settled s) (j : ℕ) :
    (self.sockets j).Settled ((self.set i s).sockets j) := by
  by_cases hj : j = i
  · subst hj
    rw [set_self]
    exact h
  · rw [set_of_ne s hj]
    exact .refl _

theorem Sound.add_client_settled {fd : ℕ} {registered : Bool} {r : Option ℕ} (h : self.Sound l)
    (hrun : self.add_client fd registered = (self', r)) (j : ℕ) :
    (self.sockets j).Settled (self'.sockets j) := by
  unfold Pool.add_client alloc_socket at hrun
  cases hfirst : self.free_socket with
  | none =>
    rw [hfirst] at hrun
    cases hrun
    exact .refl _
  | some i =>
    rw [hfirst] at hrun
    simp only [Option.map_some] at hrun
    have hinvalid : (self.sockets i).status = .INVALID := by
      obtain ⟨f, -, hlist, hfree⟩ := h.threaded
      rw [hfirst] at hlist
      cases f with
      | nil => cases hlist
      | cons k f =>
        obtain ⟨heq, -⟩ := hlist
        obtain rfl := Option.some.inj heq
        exact hfree i List.mem_cons_self
    cases registered with
    | false =>
      cases hrun
      exact .refl _
    | true =>
      cases hrun
      by_cases hj : j = i
      · subst hj
        rw [set_self]
        exact .accepted hinvalid rfl rfl
      · rw [set_of_ne _ hj]
        exact .refl _

theorem Sound.pollQueue_polled {queue : List PollEvent} {r : Option ℕ} (h : self.Sound l)
    (hskip : self.skip = 0) (hrun : self.pollQueue queue = some (self', r)) :
    self.Polled self' r ∧ self'.skip = 0 := by
  induction queue generalizing self with
  | nil =>
    cases hrun
    exact ⟨.idle rfl fun _ => .refl _, hskip⟩
  | cons e queue ih =>
    cases e with
    | listen accepted =>
      cases accepted with
      | failed => exact ih h hskip hrun
      | connected fd registered =>
        rw [Pool.pollQueue] at hrun
        rcases hadd : self.add_client fd registered with ⟨p, _ | i⟩ <;> rw [hadd] at hrun <;>
          obtain ⟨hp, hpskip⟩ := h.add_client hskip hadd
        · obtain ⟨hpolled, hskip'⟩ := ih hp hpskip hrun
          exact ⟨hpolled.of_settled (h.add_client_settled hadd), hskip'⟩
        · cases hrun
          have hsettled := h.add_client_settled hadd
          exact ⟨.accepted rfl hsettled, hpskip⟩
    | socket i readflag writeflag =>
      unfold Pool.pollQueue at hrun
      split at hrun
      · simp only at hrun
        have hwritten : (self.written i writeflag).Sound l ∧ (self.written i writeflag).skip = 0 ∧
            ∀ j, (self.sockets j).Settled ((self.written i writeflag).sockets j) := by
          cases writeflag with
          | none => exact ⟨h, hskip, fun _ => .refl _⟩
          | some env => exact ⟨h.settle (Socket.writable_eases env), hskip,
              set_settled (Socket.writable_settled env)⟩
        generalize self.written i writeflag = p at hrun hwritten
        obtain ⟨hp, hpskip, hsettled⟩ := hwritten
        split at hrun
        · rename_i hread
          cases hrun
          exact ⟨.ready rfl hsettled hread.2 rfl, hpskip⟩
        · obtain ⟨hpolled, hskip'⟩ := ih hp hpskip hrun
          exact ⟨hpolled.of_settled hsettled, hskip'⟩
      · cases hrun

/-- A poll goes on with the slot that has read, or gives another one out. -/
theorem Sound.poll_cases {wait : Option (List PollEvent)} {r : Option ℕ} (h : self.Sound l)
    (hrun : self.mread_poll wait = some (self', r)) :
    (∃ i, self.GoesOn i ∧ r = some i ∧ self' = { self with skip := 0 }) ∨
      ((∀ i, ¬self.GoesOn i) ∧ self.Polled self' r ∧ self'.skip = 0) := by
  have hqueue : ∀ queue, ({ self with skip := 0 } : Pool).pollQueue queue = some (self', r) →
      self.Polled self' r ∧ self'.skip = 0 := by
    intro queue hrun
    obtain ⟨hpolled, hskip⟩ := h.rewind.pollQueue_polled rfl hrun
    exact ⟨Polled.of_settled (p := { self with skip := 0 }) (fun _ => .refl _) hpolled, hskip⟩
  unfold mread_poll at hrun
  simp only at hrun
  split at hrun
  · rename_i i hfilter
    cases hrun
    obtain ⟨hactive, hstatus⟩ := Option.filter_eq_some_iff.mp hfilter
    exact .inl ⟨i, ⟨hactive, of_decide_eq_true hstatus⟩, rfl, rfl⟩
  · rename_i hfilter
    refine .inr ⟨fun i hi => ?_, ?_⟩
    · rw [hi.1, Option.filter_some, if_pos (decide_eq_true hi.2)] at hfilter
      cases hfilter
    · split at hrun
      · split at hrun
        · unfold report_closed at hrun
          obtain ⟨i, hi, heq⟩ := Option.map_eq_some_iff.mp hrun
          cases heq
          have hfound := List.find?_some hi
          exact ⟨.reported rfl (of_decide_eq_true hfound) fun _ => .refl _, rfl⟩
        · cases wait with
          | none =>
            cases hrun
            exact ⟨.idle rfl fun _ => .refl _, rfl⟩
          | some queue => exact hqueue queue hrun
      · exact hqueue _ hrun

/-! ## Yielding -/

theorem yield_spared (hactive : self.active = some id) (hrun : self.mread_yield = some self') :
    ∀ j ≠ id, self'.sockets j = self.sockets j := by
  unfold mread_yield at hrun
  rw [hactive] at hrun
  obtain ⟨rb, -, hrun⟩ := Option.bind_eq_some_iff.mp hrun
  simp only at hrun
  intro j hj
  split at hrun
  · cases hrun
    rw [set_of_ne _ hj]
    exact set_of_ne _ hj
  · split at hrun
    · cases hrun
      exact set_of_ne _ hj
    · obtain ⟨r, -, rfl⟩ := Option.map_eq_some_iff.mp hrun
      exact (set_of_ne _ hj).trans (set_of_ne _ hj)

end Pool

end DnServer.Gate
