import DnServer.Gate.Pulling

/-!
# The pool over whole runs

Every operation keeps the chains in order: slots that come and go, polls, yields, and
the pulls whose sizes fit. So they are in order in every state that is reached.
-/

namespace DnServer.Gate

open DnServer.Lib

namespace Pool

variable {self self' : Pool} {l : List ℕ} {id : ℕ} {s : Socket}

/-! ## Slots that come and go -/

/-- The active slot, closed and reported, goes to the front of the free list. -/
theorem Sound.release {closed : ℤ} (h : self.Sound l) (hclosed : (self.sockets id).status = .CLOSED)
    (hs : s.status = .INVALID) (hnode : s.node = none) (htemp : s.temp = none)
    (hfd : s.fd = match self.free_socket with | some i => (i : ℤ) | none => -1) :
    Sound { self with
      sockets := Function.update self.sockets id s
      closed := closed
      free_socket := some id
      skip := 0
      active := none } l := by
  have hother : ∀ j, j ≠ id → Function.update self.sockets id s j = self.sockets j := fun j hj =>
    Function.update_of_ne hj ..
  obtain ⟨f, hnodup, hlist, hfree⟩ := h.threaded
  have hnot : id ∉ f := by
    intro hmem
    have := hfree id hmem
    rw [hclosed] at this
    cases this
  refine ⟨h.tiled, h.minimal, h.small, h.owner, ⟨id :: f, List.nodup_cons.mpr ⟨hnot, hnodup⟩,
    .push hfd hlist hnot, fun j hj => ?_⟩, fun j hj => ?_, nofun, le_rfl, fun j hj => ?_⟩
  · show (Function.update self.sockets id s j).status = _
    by_cases hji : j = id
    · rw [hji, Function.update_self]
      exact hs
    · rw [hother j hji]
      exact hfree j ((List.mem_cons.mp hj).resolve_left hji)
  · change (Function.update self.sockets id s j).status.alive = false at hj
    show (Function.update self.sockets id s j).node = _ ∧
      (Function.update self.sockets id s j).temp = _
    by_cases hji : j = id
    · rw [hji, Function.update_self]
      exact ⟨hnode, htemp⟩
    · rw [hother j hji] at hj ⊢
      exact h.quiet j hj
  · have hopen : (Function.update self.sockets id s j).status.isOpen = true :=
      hj.resolve_right fun hact => nomatch hact.1
    show ∃ c t, self.rb.Held l j (Function.update self.sockets id s j).node
      (Function.update self.sockets id s j).temp c t ∧ _
    by_cases hji : j = id
    · rw [hji, Function.update_self, hs] at hopen
      cases hopen
    · rw [hother j hji] at hopen ⊢
      obtain ⟨c, t, hheld, -⟩ := h.held j (.inl hopen)
      exact ⟨c, t, hheld, nofun⟩

/-- The copies of the active slot are given up. -/
theorem Sound.free_temp (h : self.Sound l) (hactive : self.active = some id) :
    ∃ rb, self.rb.ringbuffer_free (self.sockets id).temp = some rb ∧
      self.Leads l id
        (({ self with rb := rb } : Pool).set id { self.sockets id with temp := none }) l := by
  cases hs : (self.sockets id).status.alive with
  | true =>
    obtain ⟨c, t, hheld, hskip⟩ := h.active_held hactive hs
    obtain ⟨rb, hfree, hsp, hheld', hstored, htracks⟩ := hheld.free_copies h.tiled (by omega)
    have hact := h.act (s := { self.sockets id with temp := none }) hactive hsp hs h.skip
      (fun _ => ⟨c, [], hheld', hskip.trans hstored.ge⟩) fun hdead => by
        rw [hs] at hdead
        cases hdead
    have hleads := h.act_leads hsp hheld hheld' htracks hact
    exact ⟨rb, hfree, hleads.congr rfl rfl rfl rfl rfl rfl⟩
  | false =>
    obtain ⟨-, htemp⟩ := h.quiet id hs
    rw [htemp]
    exact ⟨self.rb, rfl, .of_set (h.ease (.kept rfl htemp.symm rfl (.inl rfl))) rfl rfl rfl
      htemp.symm⟩

/-- Yielding always ends. -/
theorem Sound.yield (h : self.Sound l) (hactive : self.active = some id) :
    ∃ p, self.mread_yield = some p ∧ self.Leads l id p l := by
  -- the copies are given up first
  obtain ⟨rb, hfree, hfirst⟩ := h.free_temp hactive
  have hp := hfirst.sound
  have hpid : (({ self with rb := rb } : Pool).set id
      { self.sockets id with temp := none }).sockets id =
        { self.sockets id with temp := none } := set_self _
  unfold mread_yield
  rw [hactive]
  dsimp only
  rw [hfree, Option.bind_some]
  simp only [set_self]
  by_cases hclosed : (self.sockets id).status = .CLOSED ∧ (self.sockets id).node = none
  · rw [if_pos hclosed]
    refine ⟨_, rfl, hfirst.trans h.tiled (.of_set
      (hp.release (by rw [hpid]; exact hclosed.1) rfl hclosed.2 rfl rfl) rfl rfl ?_ ?_)⟩
    · rw [hpid]
    · rw [hpid]
  · rw [if_neg hclosed]
    split
    · exact ⟨_, rfl, hfirst.trans h.tiled
        (.of_same (hp.idle rfl rfl rfl rfl rfl le_rfl) rfl fun j => ⟨rfl, rfl⟩)⟩
    · rename_i node hnode
      have hs : (self.sockets id).status.alive = true := by
        by_contra hdead
        have := (h.quiet id (Bool.eq_false_iff.mpr hdead)).1
        rw [hnode] at this
        cases this
      obtain ⟨c, t, hheld, -⟩ := hp.active_held hactive (by rw [hpid]; exact hs)
      have hnil : t = [] := by
        rw [hpid] at hheld
        cases hheld.copies
        rfl
      rw [hnil] at hheld
      have hbefore := hheld
      rw [hpid] at hheld
      change rb.Held l id (self.sockets id).node none c [] at hheld
      rw [hnode] at hheld
      obtain ⟨rb', r, c', hy, hsp, hleft, htracks⟩ := hheld.yielded hp.tiled hp.skip
      change rb.ringbuffer_yield node self.skip = _ at hy
      have hact := hp.act (s := { self.sockets id with temp := none, node := r }) hactive hsp
        (by rw [hpid]; exact hs) le_rfl
        (fun _ => ⟨c', [], hleft, hleft.filled.stored_nonneg⟩) fun hdead => by
          rw [show ({ self.sockets id with temp := none, node := r } : Socket).status.alive =
            true from hs] at hdead
          cases hdead
      have hleads := hfirst.trans h.tiled (hp.act_leads hsp hbefore hleft htracks hact)
      refine ⟨_, congrArg (Option.map _) hy, ?_⟩
      cases r with
      | none =>
        exact hleads.trans h.tiled
          (.of_same (hact.idle rfl rfl rfl rfl rfl le_rfl) rfl fun j => ⟨rfl, rfl⟩)
      | some o => exact hleads.congr rfl rfl rfl rfl hactive.symm rfl

/-- Without an active slot there is nothing to yield. -/
theorem yield_idle (hactive : self.active = none) : self.mread_yield = some self := by
  unfold mread_yield
  rw [hactive]

/-- A closed socket that was reported is given up. -/
theorem Sound.mread_closed {b : Bool} (h : self.Sound l)
    (hrun : self.mread_closed = some (self', b)) :
    self' = self ∨ ∃ id, self.active = some id ∧ self.Leads l id self' l := by
  unfold Pool.mread_closed at hrun
  split at hrun
  · cases hrun
    exact .inl rfl
  · rename_i id hactive
    split at hrun
    · obtain ⟨p, hp, heq⟩ := Option.map_eq_some_iff.mp hrun
      cases heq
      obtain ⟨p', hp', hleads⟩ := h.yield hactive
      obtain rfl := Option.some.inj (hp'.symm.trans hp)
      exact .inr ⟨id, hactive, hleads⟩
    · cases hrun
      exact .inl rfl

/-- The first slot of the free list is taken, and lost when the socket is not registered. -/
theorem Sound.add_client {fd : ℕ} {registered : Bool} {r : Option ℕ} (h : self.Sound l)
    (hskip : self.skip = 0) (hrun : self.add_client fd registered = (self', r)) :
    self'.Sound l ∧ self'.skip = 0 := by
  unfold Pool.add_client alloc_socket at hrun
  cases hfirst : self.free_socket with
  | none =>
    rw [hfirst] at hrun
    cases hrun
    exact ⟨h, hskip⟩
  | some i =>
    rw [hfirst] at hrun
    simp only [Option.map_some] at hrun
    -- the pool with the rest of the list
    have hpop : ∃ f : List ℕ, i ∉ f ∧ f.Nodup ∧
        FreeList self.sockets (if (self.sockets i).fd < 0 then none
          else some (self.sockets i).fd.toNat) f ∧
        (∀ j ∈ f, (self.sockets j).status = .INVALID) ∧ (self.sockets i).status = .INVALID := by
      obtain ⟨f, hnodup, hlist, hfree⟩ := h.threaded
      rw [hfirst] at hlist
      cases f with
      | nil => cases hlist
      | cons j f =>
        obtain ⟨heq, hrest⟩ := hlist
        obtain rfl := Option.some.inj heq
        obtain ⟨hnot, hnodup'⟩ := List.nodup_cons.mp hnodup
        exact ⟨f, hnot, hnodup', hrest, fun k hk => hfree k (List.mem_cons_of_mem _ hk),
          hfree i List.mem_cons_self⟩
    obtain ⟨f, hnot, hnodup, hlist, hfree, hinvalid⟩ := hpop
    cases registered with
    | false =>
      cases hrun
      exact ⟨⟨h.tiled, h.minimal, h.small, h.owner, ⟨f, hnodup, hlist, hfree⟩, h.quiet, h.active,
        h.skip, h.held⟩, hskip⟩
    | true =>
      cases hrun
      have htemp := (h.quiet i (by rw [hinvalid]; rfl)).2
      refine ⟨⟨h.tiled, h.minimal, h.small, h.owner, ⟨f, hnodup, hlist.congr fun j hj => ?_,
        fun j hj => ?_⟩, fun j hj => ?_, h.active, h.skip, fun j hj => ?_⟩, hskip⟩
      · rw [set_of_ne _ (by rintro rfl; exact hnot hj)]
      · rw [set_of_ne _ (by rintro rfl; exact hnot hj)]
        exact hfree j hj
      · by_cases hji : j = i
        · rw [hji, set_self] at hj
          cases hj
        · rw [set_of_ne _ hji] at hj ⊢
          exact h.quiet j hj
      · unfold Holds at hj
        by_cases hji : j = i
        · subst hji
          rw [set_self]
          show ∃ c t, self.rb.Held l j none (self.sockets j).temp c t ∧
            (_ → self.skip ≤ self.rb.stored c)
          rw [htemp, hskip]
          exact ⟨[], [], .empty _ _ _, fun _ => le_rfl⟩
        · rw [set_of_ne _ hji] at hj ⊢
          exact h.held j hj

/-- Another slot is active, with nothing skipped. -/
theorem Sound.activate (h : self.Sound l) (hrb : self'.rb = self.rb)
    (hmax : self'.max_connection = self.max_connection) (hsockets : self'.sockets = self.sockets)
    (hfree : self'.free_socket = self.free_socket) (hactive : self'.active = some i)
    (hi : i < self.max_connection) (hskip : self'.skip = 0)
    (hopen : (self.sockets i).status.alive = true → (self.sockets i).status.isOpen = true) :
    self'.Sound l := by
  obtain ⟨h1, h2, h3, h4, h5, h6, -, -, h9⟩ := h
  refine ⟨by rwa [hrb], by rwa [hrb], by rwa [hmax], by rwa [hrb, hmax], ?_, by rwa [hsockets],
    fun j hj => ?_, hskip.ge, fun j hj => ?_⟩
  · unfold Threaded
    rwa [hsockets, hfree]
  · rw [hactive] at hj
    obtain rfl := Option.some.inj hj
    rwa [hmax]
  · have hj' : (self.sockets j).status.isOpen = true := by
      unfold Holds at hj
      rw [hactive, hsockets] at hj
      rcases hj with hj | ⟨heq, hj⟩
      · exact hj
      · obtain rfl := Option.some.inj heq
        exact hopen hj
    obtain ⟨c, t, hheld, -⟩ := h9 j (.inl hj')
    rw [hrb, hsockets, hskip]
    exact ⟨c, t, hheld, fun _ => hheld.filled.stored_nonneg⟩

theorem Sound.pollQueue {queue : List PollEvent} {r : Option ℕ} (h : self.Sound l)
    (hskip : self.skip = 0) (hrun : self.pollQueue queue = some (self', r)) : self'.Sound l := by
  induction queue generalizing self with
  | nil =>
    cases hrun
    exact h.idle rfl rfl rfl rfl rfl hskip.ge
  | cons e queue ih =>
    cases e with
    | listen accepted =>
      cases accepted with
      | failed => exact ih h hskip hrun
      | connected fd registered =>
        rw [Pool.pollQueue] at hrun
        rcases hadd : self.add_client fd registered with ⟨p, _ | i⟩ <;> rw [hadd] at hrun <;>
          obtain ⟨hp, hpskip⟩ := h.add_client hskip hadd
        · exact ih hp hpskip hrun
        · cases hrun
          exact hp.idle rfl rfl rfl rfl rfl hpskip.ge
    | socket i readflag writeflag =>
      unfold Pool.pollQueue at hrun
      split at hrun
      · rename_i hi
        simp only at hrun
        have hwritten : (self.written i writeflag).Sound l ∧ (self.written i writeflag).skip = 0 ∧
            (self.written i writeflag).max_connection = self.max_connection := by
          cases writeflag with
          | none => exact ⟨h, hskip, rfl⟩
          | some env => exact ⟨h.settle (Socket.writable_eases env), hskip, rfl⟩
        generalize self.written i writeflag = p at hrun hwritten
        obtain ⟨hp, hpskip, hmax⟩ := hwritten
        split at hrun
        · rename_i hread
          cases hrun
          have hact : Sound { p with queue := queue, active := some i } l :=
            hp.activate rfl rfl rfl rfl rfl (hmax ▸ hi) hpskip fun _ => hread.2
          refine hact.ease (.kept rfl rfl rfl (.inr ⟨hread.2, ?_⟩))
          simp only
          split <;> rfl
        · exact ih hp hpskip hrun
      · cases hrun

theorem Sound.poll {wait : Option (List PollEvent)} {r : Option ℕ} (h : self.Sound l)
    (hrun : self.mread_poll wait = some (self', r)) : self'.Sound l := by
  have hskip := h.rewind
  unfold mread_poll at hrun
  simp only at hrun
  split at hrun
  · cases hrun
    exact hskip
  · split at hrun
    · split at hrun
      · unfold report_closed at hrun
        obtain ⟨i, hi, heq⟩ := Option.map_eq_some_iff.mp hrun
        cases heq
        have hfound := List.find?_some hi
        have hmem := List.mem_of_find?_eq_some hi
        refine hskip.activate rfl rfl rfl rfl rfl (List.mem_range.mp hmem) rfl fun halive => ?_
        rw [of_decide_eq_true hfound] at halive
        cases halive
      · cases wait with
        | none =>
          cases hrun
          exact hskip.idle rfl rfl rfl rfl rfl le_rfl
        | some queue => exact hskip.pollQueue rfl hrun
    · exact hskip.pollQueue rfl hrun

/-! ## Over whole runs -/

/-- A pull is of no negative size, and what has to be read for it fits. -/
def Fitting (self : Pool) : PoolOp → Prop
  | .pull size _ => 0 ≤ size ∧ ∀ id rd_size, self.Wants size id rd_size →
      self.Fits id (wanted size rd_size)
  | _ => True

/-- What the calls do that touch blocks: they lead on from the active slot. -/
theorem Sound.exec_leads {op : PoolOp} (h : self.Sound l) (hfits : self.Fitting op)
    (hactive : self.active = some id) (hrun : self.exec op = some self')
    (hop : (∃ size env, op = .pull size env) ∨ op = .yield ∨ op = .closed) :
    ∃ l', self.Leads l id self' l' := by
  rcases hop with ⟨size, env, rfl⟩ | rfl | rfl
  · obtain ⟨⟨p, r⟩, hp, rfl⟩ := Option.map_eq_some_iff.mp hrun
    exact (h.pull hactive hfits.1 (hfits.2 id) hp).leads
  · obtain ⟨p, hp, hleads⟩ := h.yield hactive
    obtain rfl := Option.some.inj (hp.symm.trans hrun)
    exact ⟨l, hleads⟩
  · obtain ⟨⟨p, r⟩, hp, rfl⟩ := Option.map_eq_some_iff.mp hrun
    rcases h.mread_closed hp with rfl | ⟨i, hi, hleads⟩
    · exact ⟨l, .of_same h rfl fun j => ⟨rfl, rfl⟩⟩
    · obtain rfl := Option.some.inj (hi.symm.trans hactive)
      exact ⟨l, hleads⟩

/-- Without an active slot they do nothing. -/
theorem exec_idle {op : PoolOp} (hactive : self.active = none) (hrun : self.exec op = some self')
    (hop : (∃ size env, op = .pull size env) ∨ op = .yield ∨ op = .closed) : self' = self := by
  rcases hop with ⟨size, env, rfl⟩ | rfl | rfl
  · obtain ⟨⟨p, r⟩, hp, rfl⟩ := Option.map_eq_some_iff.mp hrun
    exact (pull_idle hactive hp).1
  · exact (Option.some.inj ((yield_idle hactive).symm.trans hrun)).symm
  · obtain ⟨⟨p, r⟩, hp, rfl⟩ := Option.map_eq_some_iff.mp hrun
    unfold Pool.mread_closed at hp
    rw [hactive] at hp
    cases hp
    rfl

theorem Sound.exec {op : PoolOp} (h : self.Sound l) (hfits : self.Fitting op)
    (hrun : self.exec op = some self') : ∃ l', self'.Sound l' := by
  have hblocks : (∃ size env, op = .pull size env) ∨ op = .yield ∨ op = .closed →
      ∃ l', self'.Sound l' := by
    intro hop
    cases hactive : self.active with
    | none => exact ⟨l, exec_idle hactive hrun hop ▸ h⟩
    | some id =>
      obtain ⟨l', hleads⟩ := h.exec_leads hfits hactive hrun hop
      exact ⟨l', hleads.sound⟩
  cases op with
  | poll wait =>
    obtain ⟨⟨p, r⟩, hp, rfl⟩ := Option.map_eq_some_iff.mp hrun
    exact ⟨l, h.poll hp⟩
  | pull size env => exact hblocks (.inl ⟨size, env, rfl⟩)
  | yield => exact hblocks (.inr (.inl rfl))
  | closed => exact hblocks (.inr (.inr rfl))
  | push id buffer env =>
    simp only [Pool.exec] at hrun
    split at hrun
    · obtain rfl := Option.some.inj hrun
      exact ⟨l, h.settle (Socket.mread_push_eases buffer env)⟩
    · cases hrun
  | close_client id =>
    simp only [Pool.exec] at hrun
    split at hrun
    · obtain rfl := Option.some.inj hrun
      exact ⟨l, h.settle Socket.mread_close_client_eases⟩
    · cases hrun

theorem create_tiled {buffer_size : ℤ} (hbuffer : buffer_size ≤ 2147483644) :
    (create_rb buffer_size).Tiled [0] ∧ 4096 ≤ (create_rb buffer_size).size ∧
      ¬(create_rb buffer_size).Used 0 := by
  obtain ⟨hA, hA', hA4⟩ := align_spec buffer_size
  have hAle : ALIGN buffer_size ≤ 2147483644 := by omega
  unfold create_rb READBLOCKSIZE
  generalize hsize : (if ALIGN buffer_size < 2048 * 2 then (2048 * 2 : ℤ)
    else ALIGN buffer_size).toNat = size
  have hbounds : 4096 ≤ size ∧ size ≤ 2147483644 ∧ size % 4 = 0 := by
    split at hsize <;> omega
  have hint : Memory.IsInt size := by
    unfold Memory.IsInt
    omega
  have hlen : (Ring.ringbuffer_new size).length 0 = size :=
    (Ring.setId_length _ 0 _).trans (Memory.getInt_putInt _ _ hint)
  have hsz : (Ring.ringbuffer_new size).size = size :=
    (Ring.setId_size _ _ _).trans (Ring.setLength_size _ _ _)
  have hhead : (Ring.ringbuffer_new size).head = 0 :=
    (Ring.setId_head _ _ _).trans (Ring.setLength_head _ _ _)
  have hspan : (Ring.ringbuffer_new size).span 0 = size := by
    unfold Ring.span
    rw [hlen, align_eq (by omega), Int.toNat_natCast]
  have htile := Tiles.single (a := 0) (Ring.ringbuffer_new size).span (by omega)
  rw [hspan, Nat.zero_add] at htile
  refine ⟨⟨?_, ?_, ?_, ?_⟩, ?_, Ring.not_used (Ring.setId_id _ 0 Ring.isInt_minus)⟩
  · rw [hsz]
    exact htile
  · rw [hhead]
    exact List.mem_singleton.mpr rfl
  · omega
  · omega
  · omega

theorem Sound.create {max : ℕ} {buffer_size : ℤ} (hmax : 0 < max) (hsmall : max < 2147483648)
    (hbuffer : buffer_size ≤ 2147483644) : (mread_create max buffer_size).Sound [0] := by
  obtain ⟨htiled, hminimal, hfree⟩ := create_tiled
    (show (if buffer_size = 0 then 1024 * 1024 else buffer_size) ≤ 2147483644 by split <;> omega)
  refine ⟨htiled, hminimal, hsmall, fun o ho hu => ?_, ⟨List.range' 0 (max - 0),
    List.nodup_range' .., create_freeList hmax, fun i _ => rfl⟩, fun i _ => ⟨rfl, rfl⟩, nofun,
    le_rfl, fun i hi => ?_⟩
  · rw [List.mem_singleton.mp ho] at hu
    exact absurd hu hfree
  · rcases hi with hi | ⟨hi, -⟩ <;> cases hi

/-- In every run whose pulls fit, the pool is sound. -/
theorem sound {max : ℕ} {buffer_size : ℤ} (hsmall : max < 2147483648)
    (hbuffer : buffer_size ≤ 2147483644) :
    ((system max buffer_size).restrict Fitting).Inductive fun p => ∃ l, p.Sound l where
  init := by
    rintro self ⟨hmax, rfl⟩
    exact ⟨[0], .create hmax hsmall hbuffer⟩
  step _ _ _ _ h hstep := by
    obtain ⟨l, hl⟩ := h
    exact hl.exec hstep.1 hstep.2

end Pool

end DnServer.Gate
