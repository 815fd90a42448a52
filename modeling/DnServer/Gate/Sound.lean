import DnServer.Gate.Holding
import DnServer.Gate.Slots

/-!
# A pool whose chains are in order

The blocks tile the ring, every block of someone is that of a slot, and what an open
socket holds are chains of its own blocks with data in each. A socket that is closed
with bytes still to send keeps its pointers while its blocks may be collected, but it
does not become active again.
-/

namespace DnServer.Gate

open DnServer.Lib

/-! ## What operations leave of a socket -/

/-- An operation on a socket leaves its chains, or closes it and forgets them. -/
inductive Socket.Eases (s : Socket) : Socket → Prop
  | kept {t : Socket} (hnode : t.node = s.node) (htemp : t.temp = s.temp) (hfd : t.fd = s.fd)
      (hstatus : t.status = s.status ∨ s.status.isOpen = true ∧ t.status.alive = true) : Eases s t
  | closed {t : Socket} (hs : s.status.alive = true) (ht : t.status = .CLOSED)
      (hnode : t.node = none) (htemp : t.temp = none) : Eases s t

namespace Socket

variable {s t : Socket}

theorem quiet_chains : s.quiet.node = s.node ∧ s.quiet.temp = s.temp := by
  unfold quiet turn_off
  split
  · split <;> exact ⟨rfl, rfl⟩
  · exact ⟨rfl, rfl⟩

theorem turn_on_chains :
    s.turn_on.node = s.node ∧ s.turn_on.temp = s.temp ∧ s.turn_on.fd = s.fd := by
  unfold turn_on
  split <;> exact ⟨rfl, rfl, rfl⟩

/-- `try_close` after something that left the chains alone. -/
theorem try_close_eases (hnode : t.node = s.node) (htemp : t.temp = s.temp) (hfd : t.fd = s.fd)
    (hstatus : t.status = s.status ∨ s.status.isOpen = true ∧ t.status.alive = true) :
    s.Eases t.try_close.1 := by
  obtain ⟨-, hquiet⟩ := quiet_spec (s := t)
  obtain ⟨hqnode, hqtemp⟩ := quiet_chains (s := t)
  have hkept : s.Eases t.quiet := by
    refine .kept (hqnode.trans hnode) (hqtemp.trans htemp) (quiet_fd.trans hfd) ?_
    rw [hquiet]
    exact hstatus
  rw [try_close_eq]
  split
  · exact hkept
  · rename_i hhalf
    rw [not_not] at hhalf
    split
    · refine .closed ?_ rfl rfl rfl
      rcases hstatus with heq | ⟨hs, -⟩
      · rw [← heq, hhalf]
        rfl
      · exact isOpen_alive hs
    · exact hkept

theorem mread_push_eases (buffer : List UInt8) (env : List WriteResult) :
    s.Eases (s.mread_push buffer env).1 := by
  have hon : ∀ t : Socket, t.node = s.node → t.temp = s.temp → t.fd = s.fd →
      t.status = s.status → s.Eases t.turn_on := by
    intro t hnode htemp hfd hstatus
    obtain ⟨h1, h2, h3⟩ := turn_on_chains (s := t)
    exact .kept (h1.trans hnode) (h2.trans htemp) (h3.trans hfd)
      (.inl (turn_on_spec.2.trans hstatus))
  unfold mread_push
  split
  · exact .kept rfl rfl rfl (.inl rfl)
  · rename_i hopen
    rw [Bool.not_eq_true', Bool.not_eq_false] at hopen
    split
    · split
      · exact try_close_eases rfl rfl rfl (.inr ⟨hopen, rfl⟩)
      · exact .kept rfl rfl rfl (.inl rfl)
      · exact hon _ rfl rfl rfl rfl
    · exact hon _ rfl rfl rfl rfl

theorem writable_eases (env : List WriteResult) : s.Eases (s.writable env).1 := by
  unfold writable
  split
  · exact .kept rfl rfl rfl (.inl rfl)
  · exact try_close_eases rfl rfl rfl (.inl rfl)

theorem mread_close_client_eases : s.Eases s.mread_close_client.1 := by
  unfold mread_close_client
  split
  · exact .kept rfl rfl rfl (.inl rfl)
  · rename_i hopen
    rw [Bool.not_eq_true', Bool.not_eq_false] at hopen
    exact try_close_eases rfl rfl rfl (.inr ⟨hopen, rfl⟩)

/-- A socket that is closed by force is closed at once. -/
theorem force_close_client_open (h : s.status.isOpen = true) :
    s.force_close_client.1.status = .CLOSED ∧ s.force_close_client.1.node = none ∧
      s.force_close_client.1.temp = none := by
  unfold force_close_client
  rw [h, try_close_eq]
  exact ⟨rfl, rfl, rfl⟩

/-- Closed by force or not, it is not open after it. -/
theorem force_close_client_eases : s.Eases s.force_close_client.1 ∧
    s.force_close_client.1.status.isOpen = false := by
  cases h : s.status.isOpen with
  | true =>
    obtain ⟨h1, h2, h3⟩ := force_close_client_open h
    exact ⟨.closed (isOpen_alive h) h1 h2 h3, by rw [h1]; rfl⟩
  | false =>
    have heq : s.force_close_client.1 = s := by
      unfold force_close_client
      rw [h]
      rfl
    rw [heq]
    exact ⟨.kept rfl rfl rfl (.inl rfl), h⟩

end Socket

namespace Pool

/-! ## The invariant -/

/-- The chains of the slot are in order: it is open, or active and not closed yet. -/
def Holds (self : Pool) (i : ℕ) : Prop :=
  (self.sockets i).status.isOpen = true ∨
    self.active = some i ∧ (self.sockets i).status.alive = true

/-- The free list is one of free slots. -/
def Threaded (self : Pool) : Prop :=
  ∃ f : List ℕ, f.Nodup ∧ FreeList self.sockets self.free_socket f ∧
    ∀ i ∈ f, (self.sockets i).status = .INVALID

/-- What holds of the pool when `l` are the blocks of its ring. -/
structure Sound (p : Pool) (l : List ℕ) : Prop where
  tiled : p.rb.Tiled l
  minimal : 4096 ≤ p.rb.size
  small : p.max_connection < 2147483648
  owner : ∀ o ∈ l, p.rb.Used o → p.rb.id o < p.max_connection
  threaded : p.Threaded
  quiet : ∀ i, (p.sockets i).status.alive = false →
    (p.sockets i).node = none ∧ (p.sockets i).temp = none
  active : ∀ i, p.active = some i → i < p.max_connection
  skip : 0 ≤ p.skip
  held : ∀ i, p.Holds i → ∃ c t,
    p.rb.Held l i (p.sockets i).node (p.sockets i).temp c t ∧
      (p.active = some i → p.skip ≤ p.rb.stored c)

/-- The block is somebody's, and the socket of that slot does not reach it. -/
def Stray (p : Pool) (l : List ℕ) (o : ℕ) : Prop :=
  o ∈ l ∧ p.rb.Used o ∧ ¬Ring.Among p.rb l (p.rb.id o) (p.sockets (p.rb.id o).toNat).node
    (p.sockets (p.rb.id o).toNat).temp o

/-- What an operation of the active slot `id` leaves of the pool. -/
structure Leads (p : Pool) (l : List ℕ) (id : ℕ) (p' : Pool) (l' : List ℕ) : Prop where
  sound : p'.Sound l'
  /-- No more blocks are astray. -/
  strays : ∀ o, p'.Stray l' o → p.Stray l o
  /-- The blocks of the others are as they were. -/
  origin : ∀ o ∈ l', p'.rb.Used o →
    p'.rb.id o = id ∨ (o ∈ l ∧ p.rb.Used o ∧ Ring.SameBlock p.rb p'.rb o)

variable {self self' : Pool} {l l' : List ℕ} {i id : ℕ} {s : Socket}

theorem Leads.trans {p : Pool} {l₁ : List ℕ} (h : Leads self l id p l₁) (hl : self.rb.Tiled l)
    (h' : Leads p l₁ id self' l') : Leads self l id self' l' where
  sound := h'.sound
  strays o ho := h.strays o (h'.strays o ho)
  origin o ho hu := by
    rcases h'.origin o ho hu with heq | ⟨ho', hu', hs'⟩
    · exact .inl heq
    · rcases h.origin o ho' hu' with heq | ⟨ho, hu, hs⟩
      · left
        rw [(h.sound.tiled.used_same ho' hs' hu').2, heq]
      · exact .inr ⟨ho, hu, hs.trans hs' (hl.block ho).2.2.2.2.2.1⟩

/-- The ring and the chains are as they were. -/
theorem Leads.of_same (hs : self'.Sound l) (hrb : self'.rb = self.rb)
    (hchains : ∀ j, (self'.sockets j).node = (self.sockets j).node ∧
      (self'.sockets j).temp = (self.sockets j).temp) : Leads self l id self' l where
  sound := hs
  strays o ho := by
    unfold Stray at ho ⊢
    rwa [hrb, (hchains _).1, (hchains _).2] at ho
  origin o ho hu := by
    rw [hrb] at hu ⊢
    exact .inr ⟨ho, hu, .refl _ _⟩

/-- Another socket with the same chains. -/
theorem Leads.of_set (hs : self'.Sound l) (hrb : self'.rb = self.rb)
    (hsockets : self'.sockets = Function.update self.sockets i s)
    (hnode : s.node = (self.sockets i).node) (htemp : s.temp = (self.sockets i).temp) :
    Leads self l id self' l := by
  refine .of_same hs hrb fun j => ?_
  rw [hsockets]
  by_cases hj : j = i
  · rw [hj, Function.update_self]
    exact ⟨hnode, htemp⟩
  · rw [Function.update_of_ne hj]
    exact ⟨rfl, rfl⟩

theorem Threaded.set (h : self.Threaded) (hs : (self.sockets i).status = .INVALID →
    s.status = .INVALID ∧ s.fd = (self.sockets i).fd) : (self.set i s).Threaded := by
  obtain ⟨f, hnodup, hlist, hfree⟩ := h
  refine ⟨f, hnodup, hlist.congr fun j hj => ?_, fun j hj => ?_⟩
  · by_cases hji : j = i
    · subst hji
      rw [set_self]
      exact (hs (hfree j hj)).2
    · rw [set_of_ne s hji]
  · by_cases hji : j = i
    · subst hji
      rw [set_self]
      exact (hs (hfree j hj)).1
    · rw [set_of_ne s hji]
      exact hfree j hj

/-- The rest of the pool does not matter. -/
theorem Sound.congr (h : self.Sound l) (hrb : self'.rb = self.rb)
    (hmax : self'.max_connection = self.max_connection) (hsockets : self'.sockets = self.sockets)
    (hfree : self'.free_socket = self.free_socket) (hactive : self'.active = self.active)
    (hskip : self'.skip = self.skip) : self'.Sound l := by
  obtain ⟨h1, h2, h3, h4, h5, h6, h7, h8, h9⟩ := h
  refine ⟨by rwa [hrb], by rwa [hrb], by rwa [hmax], by rwa [hrb, hmax], ?_, by rwa [hsockets],
    by rwa [hactive, hmax], by rwa [hskip], ?_⟩
  · unfold Threaded
    rwa [hsockets, hfree]
  · unfold Holds
    rwa [hsockets, hactive, hskip, hrb]

/-- An operation on one socket. -/
theorem Sound.ease (h : self.Sound l) (hs : (self.sockets i).Eases s) : (self.set i s).Sound l := by
  refine ⟨h.tiled, h.minimal, h.small, h.owner, h.threaded.set fun hinvalid => ?_, fun j hj => ?_,
    h.active, h.skip, fun j hj => ?_⟩
  · cases hs with
    | kept _ _ hfd hstatus =>
      refine ⟨hstatus.elim (·.trans hinvalid) fun ⟨hopen, _⟩ => ?_, hfd⟩
      rw [hinvalid] at hopen
      cases hopen
    | closed halive _ _ _ =>
      rw [hinvalid] at halive
      cases halive
  · by_cases hji : j = i
    · subst hji
      rw [set_self] at hj ⊢
      cases hs with
      | kept hnode htemp _ hstatus =>
        rw [hnode, htemp]
        rcases hstatus with heq | ⟨-, halive⟩
        · exact h.quiet j (by rw [← heq]; exact hj)
        · rw [halive] at hj
          cases hj
      | closed _ _ hnode htemp => exact ⟨hnode, htemp⟩
    · rw [set_of_ne s hji] at hj ⊢
      exact h.quiet j hj
  · unfold Holds at hj
    by_cases hji : j = i
    · subst hji
      rw [set_self] at hj ⊢
      cases hs with
      | kept hnode htemp _ hstatus =>
        rw [hnode, htemp]
        refine h.held j ?_
        rcases hstatus with heq | ⟨hopen, -⟩
        · rw [heq] at hj
          exact hj
        · exact .inl hopen
      | closed _ hclosed _ _ =>
        rw [hclosed] at hj
        rcases hj with hj | ⟨-, hj⟩ <;> cases hj
    · rw [set_of_ne s hji] at hj ⊢
      exact h.held j hj

/-- `try_close` and what comes before it. -/
theorem Sound.settle {r : Socket × Bool} (h : self.Sound l) (hr : (self.sockets i).Eases r.1) :
    (self.settle i r).Sound l := (h.ease hr).congr rfl rfl rfl rfl rfl rfl

/-- No slot is active. -/
theorem Sound.idle (h : self.Sound l) (hrb : self'.rb = self.rb)
    (hmax : self'.max_connection = self.max_connection) (hsockets : self'.sockets = self.sockets)
    (hfree : self'.free_socket = self.free_socket) (hactive : self'.active = none)
    (hskip : 0 ≤ self'.skip) : self'.Sound l := by
  obtain ⟨h1, h2, h3, h4, h5, h6, -, -, h9⟩ := h
  refine ⟨by rwa [hrb], by rwa [hrb], by rwa [hmax], by rwa [hrb, hmax], ?_, by rwa [hsockets],
    by rw [hactive]; exact nofun, hskip, fun i hi => ?_⟩
  · unfold Threaded
    rwa [hsockets, hfree]
  · unfold Holds at hi
    rw [hactive, hsockets] at hi
    obtain ⟨c, t, hheld, -⟩ := h9 i (.inl (hi.resolve_right fun h => nomatch h.1))
    rw [hrb, hsockets, hactive]
    exact ⟨c, t, hheld, nofun⟩

/-- Nothing is skipped. -/
theorem Sound.rewind (h : self.Sound l) : Sound { self with skip := 0 } l := by
  refine ⟨h.tiled, h.minimal, h.small, h.owner, h.threaded, h.quiet, h.active, le_rfl,
    fun i hi => ?_⟩
  obtain ⟨c, t, hheld, -⟩ := h.held i hi
  exact ⟨c, t, hheld, fun _ => hheld.filled.stored_nonneg⟩

/-- An operation of one owner leaves the ring as large, and every block a slot's. -/
theorem Sound.of_spares {rb : Ring} {i : ℤ} (h : self.Sound l) (hsp : Ring.Spares self.rb rb l l' i)
    (hi : i < self.max_connection) :
    4096 ≤ rb.size ∧ ∀ o ∈ l', rb.Used o → rb.id o < self.max_connection := by
  refine ⟨h.minimal.trans hsp.size.ge, fun o ho hu => ?_⟩
  rcases hsp.owner o ho hu with heq | ⟨hmem, hu', heq⟩
  · rwa [heq]
  · rw [heq]
    exact h.owner o hmem hu'

/-- The rest of the pool does not matter for the blocks either. -/
theorem Leads.congr {p : Pool} (h : self.Leads l id self' l') (hrb : p.rb = self'.rb)
    (hmax : p.max_connection = self'.max_connection) (hsockets : p.sockets = self'.sockets)
    (hfree : p.free_socket = self'.free_socket) (hactive : p.active = self'.active)
    (hskip : p.skip = self'.skip) : self.Leads l id p l' where
  sound := h.sound.congr hrb hmax hsockets hfree hactive hskip
  strays o ho := h.strays o (by unfold Stray at ho ⊢; rwa [hrb, hsockets] at ho)
  origin o ho hu := by
    rw [hrb] at hu ⊢
    exact h.origin o ho hu

/-- What the active slot does with its blocks leaves those of the others. -/
theorem Sound.act {rb : Ring} {skip : ℤ} (h : self.Sound l) (hactive : self.active = some id)
    (hsp : Ring.Spares self.rb rb l l' id) (hs : (self.sockets id).status.alive = true)
    (hskip : 0 ≤ skip)
    (hheld : s.status.alive = true →
      ∃ c t, rb.Held l' id s.node s.temp c t ∧ skip ≤ rb.stored c)
    (hquiet : s.status.alive = false → s.node = none ∧ s.temp = none) :
    Sound (({ self with rb := rb, skip := skip } : Pool).set id s) l' := by
  have hid := h.active id hactive
  obtain ⟨hminimal, howner⟩ := h.of_spares hsp (by omega)
  refine ⟨hsp.tiled, hminimal, h.small, howner, ?_, fun j hj => ?_, h.active, hskip,
    fun j hj => ?_⟩
  · have hthreaded : Threaded { self with rb := rb, skip := skip } := h.threaded
    refine hthreaded.set fun hinvalid => ?_
    change (self.sockets id).status = .INVALID at hinvalid
    rw [hinvalid] at hs
    cases hs
  · by_cases hji : j = id
    · subst hji
      rw [set_self] at hj ⊢
      exact hquiet hj
    · rw [set_of_ne s hji] at hj ⊢
      exact h.quiet j hj
  · unfold Holds at hj
    by_cases hji : j = id
    · subst hji
      rw [set_self] at hj ⊢
      obtain ⟨c, t, h1, h2⟩ := hheld (hj.elim Socket.isOpen_alive And.right)
      exact ⟨c, t, h1, fun _ => h2⟩
    · rw [set_of_ne s hji] at hj ⊢
      obtain ⟨c, t, h1, -⟩ := h.held j hj
      obtain ⟨h2, -⟩ := hsp.held h.tiled (by omega) (by omega) h1
      refine ⟨c, t, h2, fun hact => ?_⟩
      change self.active = some j at hact
      rw [hactive] at hact
      exact absurd (Option.some.inj hact).symm hji

/-- And no more of its own go astray when the chains take up what is its. -/
theorem Sound.act_leads {rb : Ring} {skip : ℤ} {c t c' t' : List ℕ} (h : self.Sound l)
    (hsp : Ring.Spares self.rb rb l l id)
    (hheld : self.rb.Held l id (self.sockets id).node (self.sockets id).temp c t)
    (hheld' : rb.Held l id s.node s.temp c' t') (htracks : Ring.Tracks self.rb rb l id c t c' t')
    (hs : Sound (({ self with rb := rb, skip := skip } : Pool).set id s) l) :
    Leads self l id (({ self with rb := rb, skip := skip } : Pool).set id s) l where
  sound := hs
  strays := by
    rintro o ⟨ho, hu, hnot⟩
    change rb.Used o at hu
    change ¬Ring.Among rb l (rb.id o) ((self.set id s).sockets (rb.id o).toNat).node
      ((self.set id s).sockets (rb.id o).toNat).temp o at hnot
    by_cases hid : rb.id o = id
    · rw [hid, Int.toNat_natCast, set_self, hheld'.among_iff] at hnot
      obtain ⟨hu', hid', hc, ht⟩ := (htracks o ho hu hid).resolve_left hnot
      refine ⟨ho, hu', ?_⟩
      rw [hid', Int.toNat_natCast, hheld.among_iff]
      exact not_or.mpr ⟨hc, ht⟩
    · obtain ⟨-, hu', heq⟩ := (hsp.owner o ho hu).resolve_left hid
      have hne : (rb.id o).toNat ≠ id := by
        have := hu.2
        omega
      rw [set_of_ne s hne, heq] at hnot
      refine ⟨ho, hu', fun hamong => hnot (hamong.same h.tiled hu'.2 fun x hx hxu hxid => ?_)⟩
      exact hsp.keeps x hx hxu (by rw [hxid, ← heq]; exact hid)
  origin o ho hu := by
    rcases hsp.owner o ho hu with heq | ⟨-, hu', heq⟩
    · exact .inl heq
    · by_cases hid : rb.id o = id
      · exact .inl hid
      · exact .inr ⟨ho, hu', (hsp.keeps o ho hu' (by rw [← heq]; exact hid)).2⟩

/-- What the active slot holds. -/
theorem Sound.active_held (h : self.Sound l) (hactive : self.active = some id)
    (hs : (self.sockets id).status.alive = true) :
    ∃ c t, self.rb.Held l id (self.sockets id).node (self.sockets id).temp c t ∧
      self.skip ≤ self.rb.stored c := by
  obtain ⟨c, t, hheld, hskip⟩ := h.held id (.inr ⟨hactive, hs⟩)
  exact ⟨c, t, hheld, hskip hactive⟩

/-- A change of blocks that are nobody's. -/
theorem Sound.spare {rb : Ring} (h : self.Sound l) (hsp : Ring.Spares self.rb rb l l' (-1)) :
    Leads self l id { self with rb := rb } l' := by
  have hused : ∀ o ∈ l', rb.Used o → o ∈ l ∧ self.rb.Used o ∧ rb.id o = self.rb.id o := by
    intro o ho hu
    exact (hsp.owner o ho hu).resolve_left (by have := hu.2; omega)
  obtain ⟨hminimal, howner⟩ := h.of_spares hsp (by omega)
  refine ⟨⟨hsp.tiled, hminimal, h.small, howner, h.threaded, h.quiet, h.active, h.skip,
    fun j hj => ?_⟩, ?_, fun o ho hu => ?_⟩
  · obtain ⟨c, t, h1, h2⟩ := h.held j hj
    obtain ⟨h3, h4⟩ := hsp.held h.tiled (by omega) (by omega) h1
    exact ⟨c, t, h3, fun hact => (h2 hact).trans h4.ge⟩
  · rintro o ⟨ho, hu, hnot⟩
    obtain ⟨ho', hu', heq⟩ := hused o ho hu
    change ¬Ring.Among rb l' (rb.id o) (self.sockets (rb.id o).toNat).node
      (self.sockets (rb.id o).toNat).temp o at hnot
    rw [heq] at hnot
    refine ⟨ho', hu', fun hamong => hnot (hamong.same h.tiled hu'.2 fun x hx hxu hxid => ?_)⟩
    exact hsp.keeps x hx hxu (by have := hu'.2; omega)
  · obtain ⟨ho', hu', -⟩ := hused o ho hu
    exact .inr ⟨ho', hu', (hsp.keeps o ho' hu' (by have := hu'.2; omega)).2⟩

end Pool

end DnServer.Gate
