import DnServer.Gate.Sound

/-!
# Pulling keeps the chains in order

Making room closes others and leaves the pulling socket's own blocks, or closes this
socket itself; what is read is linked behind what is there, and what is pulled in one
piece is a copy of its own. What keeps this is that every size that has to be read fits
an `int` together with its header, or meets the blocks of its own socket at the head of
the ring.
-/

namespace DnServer.Gate

open DnServer.Lib

namespace Pool

variable {self self' : Pool} {l l' : List ℕ} {id blk fuel : ℕ} {n : ℤ}

/-! ## Allocation -/

/-- What collecting the blocks of slot `cid` and closing it leaves of the pool. -/
structure Evicted (p p' : Pool) (l : List ℕ) (cid : ℤ) : Prop where
  sound : p'.Sound l
  slot : 0 ≤ cid ∧ cid < p.max_connection
  shut : ∀ i : ℕ, (i : ℤ) = cid → (p'.sockets i).status.isOpen = false ∧
    ((p.sockets i).status.isOpen = true → (p'.sockets i).status = .CLOSED)
  others : ∀ i : ℕ, (i : ℤ) ≠ cid → p'.sockets i = p.sockets i
  active : p'.active = p.active
  skip : p'.skip = p.skip
  max_connection : p'.max_connection = p.max_connection
  size : p'.rb.size = p.rb.size
  /-- Blocks of others are the same. -/
  same : ∀ o ∈ l, p.rb.Used o → p.rb.id o ≠ cid → Ring.SameBlock p.rb p'.rb o
  used : ∀ o ∈ l, p'.rb.Used o → p.rb.Used o ∧ p.rb.id o ≠ cid

/-- One round of the loop that makes room. -/
theorem Sound.evict {rb₁ rb₂ : Ring} {cid : ℤ} (h : self.Sound l) (ht : rb₁.Tiled l)
    (hmem : rb₁.mem = self.rb.mem) (hsize : rb₁.size = self.rb.size)
    (hopen : ∀ i, self.active = some i → (self.sockets i).status.isOpen = true)
    (hc : rb₁.ringbuffer_collect = some (rb₂, cid))
    (hclose : ({ self with rb := rb₂ } : Pool).force_close_client cid = some self') :
    self.Evicted self' l cid := by
  obtain ⟨hcollected, -⟩ := ht.collect_spec hc
  unfold force_close_client at hclose
  split at hclose
  swap
  · cases hclose
  rename_i hslot
  obtain rfl := Option.some.inj hclose
  obtain ⟨cid, rfl⟩ := Int.eq_ofNat_of_zero_le hslot.1
  rw [Int.toNat_natCast]
  change 0 ≤ (cid : ℤ) ∧ (cid : ℤ) < self.max_connection at hslot
  have hshut : ∀ i : ℕ, (i : ℤ) = cid →
      ((self.sockets cid).force_close_client.1).status.isOpen = false ∧
        ((self.sockets i).status.isOpen = true →
          ((self.sockets cid).force_close_client.1).status = .CLOSED) := by
    intro i hi
    obtain rfl : i = cid := by omega
    exact ⟨Socket.force_close_client_eases.2, fun hop => (Socket.force_close_client_open hop).1⟩
  have hsp := hcollected.spares h.tiled hmem hsize
  obtain ⟨hminimal, howner⟩ := h.of_spares hsp hslot.2
  have heases : Socket.Eases (self.sockets cid) (self.sockets cid).force_close_client.1 :=
    Socket.force_close_client_eases.1
  have hset : (self.set cid (self.sockets cid).force_close_client.1).Sound l := h.ease heases
  refine ⟨⟨hsp.tiled, hminimal, h.small, howner, hset.threaded, hset.quiet, h.active, h.skip,
    fun j hj => ?_⟩, hslot, fun i hi => ?_, fun i hi => set_of_ne _ (by omega), rfl, rfl,
    rfl, hsp.size, fun o ho hu hne => (hsp.keeps o ho hu hne).2,
    fun o ho hu => hcollected.used hmem ho hu⟩
  · -- whose chains are in order still is not the one that was closed
    have hne : j ≠ cid := by
      rintro rfl
      obtain ⟨hnot, hclosed⟩ := hshut j rfl
      unfold Holds at hj
      change ((self.set j (self.sockets j).force_close_client.1).sockets j).status.isOpen = true ∨
        self.active = some j ∧
          ((self.set j (self.sockets j).force_close_client.1).sockets j).status.alive = true at hj
      rw [set_self] at hj
      rcases hj with hj | ⟨hact, hj⟩
      · rw [hnot] at hj
        cases hj
      · rw [hclosed (hopen j hact)] at hj
        cases hj
    have hsock : (({ self with rb := rb₂ } : Pool).settle cid
        (self.sockets cid).force_close_client).sockets j = self.sockets j := set_of_ne _ hne
    unfold Holds at hj
    rw [hsock] at hj ⊢
    obtain ⟨c, t, h1, h2⟩ := h.held j hj
    obtain ⟨h3, h4⟩ := hsp.held h.tiled (by omega) (by omega) h1
    exact ⟨c, t, h3, fun hact => (h2 hact).trans h4.ge⟩
  · obtain rfl : i = cid := by omega
    change ((self.set i _).sockets i).status.isOpen = false ∧
      (_ → ((self.set i _).sockets i).status = _)
    rw [set_self]
    exact hshut i rfl

theorem Evicted.leads {p p' : Pool} {cid : ℤ} (h : Evicted p p' l cid) (hp : p.Sound l) :
    p.Leads l id p' l where
  sound := h.sound
  strays := by
    rintro o ⟨ho, hu, hnot⟩
    obtain ⟨hu', hne⟩ := h.used o ho hu
    have hid := (hp.tiled.used_same ho (h.same o ho hu' hne) hu').2
    have hpos := hu'.2
    rw [hid, h.others _ (by omega)] at hnot
    refine ⟨ho, hu', fun hamong => hnot (hamong.same hp.tiled hpos fun x hx hxu hxid => ?_)⟩
    exact ⟨hx, h.same x hx hxu (by rwa [hxid])⟩
  origin o ho hu := by
    obtain ⟨hu', hne⟩ := h.used o ho hu
    exact .inr ⟨ho, hu', h.same o ho hu' hne⟩

/-- What the loop that makes room for `n` bytes at `blk` leaves of the pool. -/
structure Got (p p' : Pool) (l l' : List ℕ) (id : ℕ) (n : ℤ) (blk : ℕ) : Prop where
  leads : p.Leads l id p' l'
  mem : blk ∈ l'
  fresh : p'.rb.Fresh n blk
  socket : p'.sockets id = p.sockets id
  active : p'.active = p.active
  skip : p'.skip = p.skip
  max_connection : p'.max_connection = p.max_connection
  size : p'.rb.size = p.rb.size
  kept : ∀ c t, p.rb.Held l id (p.sockets id).node (p.sockets id).temp c t →
    p'.rb.Held l' id (p.sockets id).node (p.sockets id).temp c t ∧ p'.rb.stored c = p.rb.stored c

theorem Got.sound {p p' : Pool} {blk : ℕ} (h : p.Got p' l l' id n blk) : p'.Sound l' :=
  h.leads.sound

/-- What is left of the pool when the pulling slot itself had to be closed. -/
structure Lost (p p' : Pool) (l : List ℕ) (id : ℕ) : Prop where
  leads : ∃ l', p.Leads l id p' l'
  closed : (p'.sockets id).status = .CLOSED
  active : p'.active = p.active
  max_connection : p'.max_connection = p.max_connection

/-- The size fits an `int` together with a header, or is not looked at: the block at the head is
one of the slot's own. -/
def Fits (self : Pool) (id : ℕ) (n : ℤ) : Prop :=
  n ≤ 2147483628 ∨ self.rb.Used self.rb.head ∧ self.rb.id self.rb.head = id

/-- One round of the loop that makes room: a block is allocated, or somebody is closed. -/
theorem Sound.allocate_round {r : Option ℕ} (h : self.Sound l) (hactive : self.active = some id)
    (hopen : (self.sockets id).status.isOpen = true) (hn : 0 ≤ n) (hfits : self.Fits id n)
    (hrun : self.allocate id n (fuel + 1) = some (self', r)) :
    (∃ blk l' rb', r = some blk ∧ self' = { self with rb := rb' } ∧
      Ring.Allocated self.rb rb' l l' n blk) ∨
    ∃ (p : Pool) (cid : ℤ), self.Evicted p l cid ∧ (cid = id ∧ r = none ∧ self' = p ∨
      cid ≠ id ∧ n ≤ 2147483628 ∧ p.allocate id n fuel = some (self', r)) := by
  have hact : ∀ i, self.active = some i → (self.sockets i).status.isOpen = true := by
    intro i hi
    obtain rfl := Option.some.inj (hactive.symm.trans hi)
    exact hopen
  rw [Pool.allocate] at hrun
  obtain ⟨⟨rb₁, b⟩, halloc, hrun⟩ := Option.bind_eq_some_iff.mp hrun
  cases b with
  | some blk =>
    cases hrun
    have hle : n ≤ 2147483628 := by
      refine hfits.resolve_right fun hown => ?_
      rw [h.tiled.alloc_refused hown.1] at halloc
      cases halloc
    rcases h.tiled.alloc_spec hn hle halloc with ⟨hno, -⟩ | ⟨b, l', hb, hal⟩
    · cases hno
    · exact .inl ⟨b, l', rb₁, hb, rfl, hal⟩
  | none =>
    obtain ⟨⟨rb₂, cid⟩, hc, hrun⟩ := Option.bind_eq_some_iff.mp hrun
    obtain ⟨p, hclose, hrun⟩ := Option.bind_eq_some_iff.mp hrun
    have hround : self.Evicted p l cid ∧ (cid = id ∨ n ≤ 2147483628) := by
      rcases hfits with hle | hown
      · rcases h.tiled.alloc_spec hn hle halloc with ⟨-, ht, hmem, hsize⟩ | ⟨_, _, hno, -⟩
        · exact ⟨h.evict ht hmem hsize hact hc hclose, .inr hle⟩
        · cases hno
      · rw [h.tiled.alloc_refused hown.1] at halloc
        cases halloc
        exact ⟨h.evict h.tiled rfl rfl hact hc hclose,
          .inl ((h.tiled.collect_head hown.1 hc).1.trans hown.2)⟩
    refine .inr ⟨p, cid, hround.1, ?_⟩
    dsimp only at hrun
    by_cases hid : cid = id
    · rw [if_pos hid] at hrun
      cases hrun
      exact .inl ⟨hid, rfl, rfl⟩
    · rw [if_neg hid] at hrun
      exact .inr ⟨hid, hround.2.resolve_left hid, hrun⟩

/-- Who is closed for another slot leaves the blocks of this one. -/
theorem Evicted.held {p : Pool} {cid : ℤ} (hev : self.Evicted p l cid) (h : self.Sound l)
    (hid : cid ≠ id) (hheld : self.rb.Held l id (self.sockets id).node (self.sockets id).temp c t) :
    p.rb.Held l id (p.sockets id).node (p.sockets id).temp c t ∧
      p.rb.stored c = self.rb.stored c := by
  rw [hev.others id hid.symm]
  refine hheld.same h.tiled fun x hx => ?_
  obtain ⟨hm, hu, hx⟩ := hheld.owned (by omega) hx
  exact ⟨hm, hev.same x hm hu (by rw [hx]; exact hid.symm)⟩

/-- The loop that makes room. -/
theorem Sound.allocate {r : Option ℕ} (h : self.Sound l) (hactive : self.active = some id)
    (hopen : (self.sockets id).status.isOpen = true) (hn : 0 ≤ n) (hfits : self.Fits id n)
    (hrun : self.allocate id n fuel = some (self', r)) :
    (r = none ∧ self.Lost self' l id) ∨ ∃ blk l', r = some blk ∧ self.Got self' l l' id n blk := by
  induction fuel generalizing self l with
  | zero => cases hrun
  | succ fuel ih =>
    rcases h.allocate_round hactive hopen hn hfits hrun with
      ⟨blk, l', rb₁, rfl, rfl, hal⟩ | ⟨p, cid, hev, ⟨hid, rfl, rfl⟩ | ⟨hid, hle, hrun⟩⟩
    · exact .inr ⟨blk, l', rfl, h.spare (hal.spares h.tiled _), hal.mem, hal.fresh, rfl, rfl, rfl,
        rfl, hal.size, fun c t hheld => hal.held h.tiled (by omega) hheld⟩
    · exact .inl ⟨rfl, ⟨l, hev.leads h⟩, (hev.shut id hid.symm).2 hopen, hev.active,
        hev.max_connection⟩
    · have hsock := hev.others id hid.symm
      rcases ih hev.sound (hev.active.trans hactive) (by rw [hsock]; exact hopen) (.inl hle)
        hrun with ⟨hr, hlost⟩ | ⟨blk, l', hr, hgot⟩
      · obtain ⟨l', hl'⟩ := hlost.leads
        exact .inl ⟨hr, ⟨l', (hev.leads h).trans h.tiled hl'⟩, hlost.closed,
          hlost.active.trans hev.active, hlost.max_connection.trans hev.max_connection⟩
      · refine .inr ⟨blk, l', hr, (hev.leads h).trans h.tiled hgot.leads, hgot.mem, hgot.fresh,
          hgot.socket.trans hsock, hgot.active.trans hev.active, hgot.skip.trans hev.skip,
          hgot.max_connection.trans hev.max_connection, hgot.size.trans hev.size,
          fun c t hheld => ?_⟩
        obtain ⟨h1, h2⟩ := hev.held h hid hheld
        obtain ⟨h3, h4⟩ := hgot.kept c t h1
        rw [hsock] at h3
        exact ⟨h3, h4.trans h2⟩

/-! ## Reading -/

/-- An open socket goes on in another status of use. -/
theorem Sound.setStatus {status : SocketStatus} (h : self.Sound l)
    (hopen : (self.sockets id).status.isOpen = true) (ht : status.alive = true) :
    self.Leads l id (self.setStatus id status) l :=
  .of_set (h.ease (.kept rfl rfl rfl (.inr ⟨hopen, ht⟩))) rfl rfl rfl rfl

/-- `_close_active` gives everything up. -/
theorem Sound.close_active (h : self.Sound l) (hactive : self.active = some id)
    (hopen : (self.sockets id).status.isOpen = true) (hrun : self.close_active id = some self') :
    self.Leads l id self' l ∧ self'.active = self.active ∧
      self'.max_connection = self.max_connection := by
  obtain ⟨c, t, hheld, -⟩ := h.active_held hactive (Socket.isOpen_alive hopen)
  obtain ⟨rb₁, hfree₁, hsp₁, hheld₁, -, htracks₁⟩ := hheld.free_copies h.tiled (by omega)
  obtain ⟨rb₂, hfree₂, hsp₂, htracks₂⟩ := hheld₁.free_chain hsp₁.tiled (by omega)
  unfold Pool.close_active at hrun
  rw [hfree₁, Option.bind_some, hfree₂, Option.bind_some] at hrun
  unfold force_close_client at hrun
  split at hrun
  · obtain rfl := Option.some.inj hrun
    obtain ⟨hclosed, hnode, htemp⟩ := Socket.force_close_client_open hopen
    have hsp := hsp₁.trans h.tiled hsp₂
    have hact := h.act (s := (self.sockets id).force_close_client.1) hactive hsp
      (Socket.isOpen_alive hopen) h.skip
      (fun halive => by rw [hclosed] at halive; cases halive) fun _ => ⟨hnode, htemp⟩
    have hleads := h.act_leads hsp hheld (by rw [hnode, htemp]; exact .empty _ _ _)
      (htracks₁.trans htracks₂) hact
    exact ⟨hleads.congr rfl rfl rfl rfl rfl rfl, rfl, rfl⟩
  · cases hrun

/-- A block that was read into and whose bytes are linked next. -/
structure Ready (p p' : Pool) (l' : List ℕ) (id : ℕ) (sz : ℤ) (blk : ℕ) : Prop where
  mem : blk ∈ l'
  fresh : ∃ m, 0 < m ∧ sz ≤ m ∧ p'.rb.Fresh m blk
  isOpen : (p'.sockets id).status.isOpen = true
  skip : p'.skip = p.skip

/-- Linking the block that was read into. -/
theorem Sound.link_node {m : ℤ} (h : self.Sound l) (hactive : self.active = some id)
    (hopen : (self.sockets id).status.isOpen = true) (hblk : blk ∈ l) (hm : 0 < m)
    (hf : self.rb.Fresh m blk) (hrun : self.link_node id blk = some self') :
    self.Leads l id self' l ∧ self'.active = self.active ∧
      self'.max_connection = self.max_connection ∧
      (self'.sockets id).status = (self.sockets id).status ∧ self'.skip = self.skip ∧
      ∃ c t, self'.rb.Held l id (self'.sockets id).node (self'.sockets id).temp c t ∧
        self'.skip < self'.rb.stored c := by
  have hid := h.active id hactive
  have hsmall := h.small
  have hint : Memory.IsInt id := by
    unfold Memory.IsInt
    omega
  obtain ⟨c, t, hheld, hskip⟩ := h.active_held hactive (Socket.isOpen_alive hopen)
  unfold Pool.link_node at hrun
  cases hnode : (self.sockets id).node with
  | none =>
    rw [hnode] at hrun
    obtain rfl := Option.some.inj hrun
    obtain ⟨hsp, hfirst, hstored, htracks⟩ :=
      (hnode ▸ hheld).first h.tiled (by omega) hint hblk hf hm
    have hact := h.act (s := { self.sockets id with node := some blk }) hactive hsp
      (Socket.isOpen_alive hopen) h.skip (fun _ => ⟨[blk], t, hfirst, by omega⟩) fun hdead => by
        rw [Socket.isOpen_alive hopen] at hdead
        cases hdead
    have hleads := h.act_leads hsp hheld hfirst htracks hact
    refine ⟨hleads.congr rfl rfl rfl rfl rfl rfl, rfl, rfl, ?_, rfl, [blk], t, ?_, ?_⟩
    · rw [set_self]
    · rw [set_self]
      exact hfirst
    · show self.skip < (self.rb.setId blk id).stored [blk]
      omega
  | some node =>
    rw [hnode] at hrun
    obtain ⟨rb, hlink, rfl⟩ := Option.map_eq_some_iff.mp hrun
    obtain ⟨hsp, happend, hstored, htracks⟩ :=
      (hnode ▸ hheld).append h.tiled (by omega) hint hblk hf hm hlink
    rw [← hnode] at happend
    have hact := h.act (s := self.sockets id) hactive hsp (Socket.isOpen_alive hopen) h.skip
      (fun _ => ⟨c ++ [blk], t, happend, by omega⟩) fun hdead => by
        rw [Socket.isOpen_alive hopen] at hdead
        cases hdead
    have hleads := h.act_leads hsp hheld happend htracks hact
    refine ⟨hleads.congr rfl rfl (Function.update_eq_self _ _).symm rfl rfl rfl, rfl, rfl, rfl, rfl,
      c ++ [blk], t, happend, ?_⟩
    show self.skip < rb.stored (c ++ [blk])
    omega

/-- Bytes that are written into a block that is nobody's. -/
theorem Sound.write {data : List UInt8} (h : self.Sound l) (hblk : blk ∈ l)
    (hf : self.rb.Fresh n blk) (hdata : (data.length : ℤ) ≤ n) :
    self.Leads l id { self with rb := { self.rb with mem := self.rb.mem.putBytes (blk + 16) data } }
      l ∧ Ring.Fresh { self.rb with mem := self.rb.mem.putBytes (blk + 16) data } n blk := by
  obtain ⟨-, -, -, hspan, -⟩ := h.tiled.block hblk
  rw [hf.length] at hspan
  unfold sizeofBlock at hspan
  have hmem : Ring.SameOutside self.rb
      { self.rb with mem := self.rb.mem.putBytes (blk + 16) data } (blk + 16)
      (blk + self.rb.span blk) :=
    ⟨rfl, fun k hk => Memory.putBytes_outside (by omega)⟩
  have hf' : Ring.Fresh { self.rb with mem := self.rb.mem.putBytes (blk + 16) data } n blk :=
    ⟨(hmem.field (by omega)).trans hf.length, (hmem.field (by omega)).trans hf.offset,
      (hmem.field (by omega)).trans hf.id, (hmem.field (by omega)).trans hf.next⟩
  have hap := h.tiled.apart_inside hblk ⟨hmem.mono (by omega) le_rfl, rfl⟩
  refine ⟨h.spare (hap.spares h.tiled (fun x hx hu => ?_) fun x hx hu => ?_), hf'⟩
  · rw [List.mem_singleton.mp hx] at hu
    exact absurd hu (Ring.not_used hf.id)
  · rw [List.mem_singleton.mp hx] at hu
    exact absurd hu (Ring.not_used hf'.id)

/-- A read that comes to nothing: the block is given back and the socket waits. -/
theorem Sound.suspend_unread {rb : Ring} (h : self.Sound l)
    (hopen : (self.sockets id).status.isOpen = true) (hblk : blk ∈ l)
    (hrb : self.rb.ringbuffer_shrink blk 0 = some rb) :
    self.Leads l id (({ self with rb := rb } : Pool).setStatus id .SUSPEND) l := by
  obtain ⟨rfl, -⟩ := h.tiled.shrink_zero hblk hrb
  have hspare : self.Leads l id _ l := h.spare (h.tiled.spares_setHead hblk _)
  exact hspare.trans h.tiled (hspare.sound.setStatus hopen rfl)

/-- A read that fails: the block is given back and the socket closed. -/
theorem Sound.close_unread {rb : Ring} (h : self.Sound l) (hactive : self.active = some id)
    (hopen : (self.sockets id).status.isOpen = true) (hblk : blk ∈ l)
    (hrb : self.rb.ringbuffer_shrink blk 0 = some rb)
    (hrun : ({ self with rb := rb } : Pool).close_active id = some self') :
    self.Leads l id self' l ∧ self'.active = self.active ∧
      self'.max_connection = self.max_connection := by
  obtain ⟨rfl, -⟩ := h.tiled.shrink_zero hblk hrb
  have hspare : self.Leads l id _ l := h.spare (h.tiled.spares_setHead hblk _)
  obtain ⟨hleads, h2, h3⟩ := hspare.sound.close_active hactive hopen hrun
  exact ⟨hspare.trans h.tiled hleads, h2, h3⟩

/-- What the reading loop leaves of the pool. -/
theorem Sound.fill {sz rd : ℤ} {env : List ReadResult} {b : Bool} (h : self.Sound l)
    (hactive : self.active = some id) (hopen : (self.sockets id).status.isOpen = true)
    (hblk : blk ∈ l) (hf : self.rb.Fresh rd blk) (hrd : 0 ≤ rd)
    (hrun : self.fill id blk sz rd env = some (self', b)) :
    ∃ l', self.Leads l id self' l' ∧ self'.active = self.active ∧
      self'.max_connection = self.max_connection ∧ (b = true → self.Ready self' l' id sz blk) := by
  induction env with
  | nil =>
    obtain ⟨rb, hrb, heq⟩ := Option.map_eq_some_iff.mp hrun
    cases heq
    exact ⟨l, h.suspend_unread hopen hblk hrb, rfl, rfl, nofun⟩
  | cons e env ih =>
    cases e with
    | EINTR => exact ih hrun
    | EWOULDBLOCK =>
      obtain ⟨rb, hrb, heq⟩ := Option.map_eq_some_iff.mp hrun
      cases heq
      exact ⟨l, h.suspend_unread hopen hblk hrb, rfl, rfl, nofun⟩
    | failed =>
      obtain ⟨rb, hrb, hrun⟩ := Option.bind_eq_some_iff.mp hrun
      obtain ⟨p, hp, heq⟩ := Option.map_eq_some_iff.mp hrun
      cases heq
      obtain ⟨h1, h2, h3⟩ := h.close_unread hactive hopen hblk hrb hp
      exact ⟨l, h1, h2, h3, nofun⟩
    | bytes data =>
      unfold Pool.fill at hrun
      simp only at hrun
      generalize hlen : (if (self.sockets id).status = SocketStatus.FIRST_POLLIN then _ else 0) =
        httplen at hrun
      have hdata : ((data.take rd.toNat).length : ℤ) ≤ rd := by
        have := List.length_take_le rd.toNat data
        omega
      have hrest : (((data.take rd.toNat).drop httplen).length : ℤ) ≤ rd := by
        rw [List.length_drop]
        omega
      -- the bytes are written, and those behind a header once more
      generalize hmem : (if httplen = 0 then _ else _ : Memory) = mem at hrun
      obtain ⟨hwritten, hfq⟩ : self.Leads l id { self with rb := { self.rb with mem := mem } } l ∧
          Ring.Fresh { self.rb with mem := mem } rd blk := by
        rw [← hmem]
        split
        · exact h.write hblk hf hdata
        · obtain ⟨h1, h2⟩ := h.write hblk hf hdata
          obtain ⟨h3, h4⟩ := h1.sound.write hblk h2 hrest
          exact ⟨h1.trans h.tiled h3, h4⟩
      have hq := hwritten.sound
      by_cases hempty : data.take rd.toNat = []
      · rw [if_pos hempty] at hrun
        obtain ⟨rb, hrb, hrun⟩ := Option.bind_eq_some_iff.mp hrun
        obtain ⟨p, hp, heq⟩ := Option.map_eq_some_iff.mp hrun
        cases heq
        obtain ⟨h1, h2, h3⟩ := hq.close_unread hactive hopen hblk hrb hp
        exact ⟨l, hwritten.trans h.tiled h1, h2, h3, nofun⟩
      · rw [if_neg hempty] at hrun
        by_cases hnone : (data.take rd.toNat).drop httplen = []
        · rw [if_pos hnone] at hrun
          cases hrun
          exact ⟨l, hwritten.trans h.tiled (hq.setStatus hopen rfl), rfl, rfl, nofun⟩
        · rw [if_neg hnone] at hrun
          have hpos : 0 < (((data.take rd.toNat).drop httplen).length : ℤ) := by
            have := List.length_pos_iff.mpr hnone
            omega
          generalize (((data.take rd.toNat).drop httplen).length : ℤ) = m at hrun hpos hrest
          obtain ⟨rb, hrb, hrun⟩ := Option.bind_eq_some_iff.mp hrun
          obtain ⟨l', hal, -⟩ := hq.tiled.shrink_spec hblk hfq hpos hrest hrb
          have hshrunk := hwritten.trans h.tiled (hq.spare (hal.spares hq.tiled _))
          by_cases hsz : m < sz
          · rw [if_pos hsz] at hrun
            obtain ⟨p, hp, heq⟩ := Option.map_eq_some_iff.mp hrun
            cases heq
            obtain ⟨h1, h2, h3, h4, -⟩ :=
              hshrunk.sound.link_node hactive hopen hal.mem hpos hal.fresh hp
            have hlinked := hshrunk.trans h.tiled h1
            exact ⟨l', hlinked.trans h.tiled (h1.sound.setStatus (by rw [h4]; exact hopen) rfl), h2,
              h3, nofun⟩
          · rw [if_neg hsz] at hrun
            cases hrun
            have hset : self.Leads l id _ l' := hshrunk.trans h.tiled <|
              hshrunk.sound.setStatus hopen (show SocketStatus.READ.alive = true from rfl)
            refine ⟨l', hset, rfl, rfl, fun _ => ⟨hal.mem,
              ⟨m, hpos, by omega, hal.fresh⟩, ?_, rfl⟩⟩
            unfold Pool.setStatus
            rw [set_self]
            rfl

/-- What `_ringbuffer_read` says of the active slot. -/
theorem Sound.read_spec {size : ℤ} (h : self.Sound l) (hactive : self.active = some id)
    (hs : (self.sockets id).status.alive = true) (hsize : 0 ≤ size) :
    ∃ c t p, self.rb.Held l id (self.sockets id).node (self.sockets id).temp c t ∧
      self.skip ≤ self.rb.stored c ∧
      self.ringbuffer_read id size = some (min size (self.rb.stored c - self.skip), p) ∧
      (p = none → size = 0 → self.skip = self.rb.stored c) ∧
      (p ≠ none → self.skip + size ≤ self.rb.stored c ∧ self.skip < self.rb.stored c) := by
  obtain ⟨c, t, hheld, hskip⟩ := h.active_held hactive hs
  have hskip0 := h.skip
  unfold ringbuffer_read
  cases hnode : (self.sockets id).node with
  | none =>
    rw [hnode] at hheld
    have hnil : c = [] := by
      cases hheld.chain
      rfl
    subst hnil
    rw [Ring.stored_nil] at hskip
    refine ⟨[], t, none, hheld, hskip, ?_, fun _ _ => ?_, fun hne => absurd rfl hne⟩
    · have hzero : self.skip = 0 := by omega
      rw [Ring.stored_nil, hzero, sub_zero, min_eq_right hsize]
    · rw [Ring.stored_nil]
      omega
  | some node =>
    rw [hnode] at hheld
    obtain ⟨p, hp, h1, h2⟩ := hheld.data_spec h.tiled hsize hskip
    exact ⟨c, t, p, hheld, hskip, hp, h1, h2⟩

/-- The bytes of a slot that are still there are fewer than the ring is long. -/
theorem Sound.size_le {c t : List ℕ} {node temp : Option ℕ} (h : self.Sound l)
    (hheld : self.rb.Held l id node temp c t) : self.rb.stored c ≤ 2147483628 := by
  have hfit := h.tiled.stored_le hheld.chain hheld.sub hheld.filled
  have hbounded := h.tiled.bounded
  have hnil : c = [] ∨ 1 ≤ c.length := by
    cases c with
    | nil => exact .inl rfl
    | cons o c =>
      right
      rw [List.length_cons]
      omega
  have hfour := h.tiled.size_mod
  rcases hnil with rfl | hlen
  · rw [Ring.stored_nil]
    omega
  · omega

/-- Bytes that are there are skipped. -/
theorem Sound.advance {size : ℤ} (h : self.Sound l) (hsize : 0 ≤ size)
    (hle : ∀ i, self.active = some i → self.Holds i → ∀ c t,
      self.rb.Held l i (self.sockets i).node (self.sockets i).temp c t →
        self.skip + size ≤ self.rb.stored c) :
    self.Leads l id { self with skip := self.skip + size } l := by
  have hskip := h.skip
  refine .of_same ⟨h.tiled, h.minimal, h.small, h.owner, h.threaded, h.quiet, h.active, ?_,
    fun i hi => ?_⟩ rfl fun j => ⟨rfl, rfl⟩
  · show 0 ≤ self.skip + size
    omega
  · obtain ⟨c, t, hheld, -⟩ := h.held i hi
    exact ⟨c, t, hheld, fun hact => hle i hact hi c t hheld⟩

/-- A pull that finds its bytes. -/
theorem Sound.found {size v ptr : ℤ} (h : self.Sound l) (hactive : self.active = some id)
    (hsize : 0 ≤ size) (hread : self.ringbuffer_read id size = some (v, some ptr)) :
    self.Leads l id { self with skip := self.skip + size } l := by
  cases hs : (self.sockets id).status.alive with
  | true =>
    obtain ⟨c, t, p, hheld, -, hp, -, hsome⟩ := h.read_spec hactive hs hsize
    rw [hread] at hp
    obtain ⟨-, rfl⟩ := Prod.mk.inj (Option.some.inj hp)
    refine h.advance hsize fun i hi _ c' t' hheld' => ?_
    obtain rfl := Option.some.inj (hactive.symm.trans hi)
    rw [hheld'.chain.unique hheld.chain]
    exact (hsome nofun).1
  | false =>
    refine absurd hread ?_
    unfold ringbuffer_read
    rw [(h.quiet id hs).1]
    exact nofun

/-- What a pull leaves of the pool: what it found is skipped. -/
structure Pulled (p : Pool) (l : List ℕ) (id : ℕ) (p' : Pool) (size : ℤ) (r : Option ℤ) : Prop where
  leads : ∃ l', p.Leads l id p' l'
  active : p'.active = p.active
  max_connection : p'.max_connection = p.max_connection
  skip : r ≠ none → p'.skip = p.skip + size

/-- A pull that finds nothing. -/
theorem Leads.missed {size : ℤ} (h : self.Leads l id self' l')
    (hactive : self'.active = self.active) (hmax : self'.max_connection = self.max_connection) :
    self.Pulled l id self' size none :=
  ⟨⟨l', h⟩, hactive, hmax, fun hne => absurd rfl hne⟩

theorem Sound.gather {size : ℤ} {r : Option ℤ} (h : self.Sound l) (hactive : self.active = some id)
    (hopen : (self.sockets id).status.isOpen = true) (hsize : 0 ≤ size)
    (hrun : self.gather id size = some (self', r)) :
    self.Pulled l id self' size r := by
  have hid := h.active id hactive
  have hsmall := h.small
  have hint : Memory.IsInt id := by
    unfold Memory.IsInt
    omega
  obtain ⟨c, t, p, hheld, -, hread, -⟩ := h.read_spec hactive (Socket.isOpen_alive hopen) hsize
  have hbound := h.size_le hheld
  have hskip0 := h.skip
  unfold Pool.gather at hrun
  obtain ⟨⟨n, ptr⟩, hread', hrun⟩ := Option.bind_eq_some_iff.mp hrun
  cases ptr with
  | some ptr =>
    cases hrun
    exact ⟨⟨l, h.found hactive hsize hread'⟩, rfl, rfl, fun _ => rfl⟩
  | none =>
    rw [hread] at hread'
    obtain ⟨rfl, rfl⟩ := Prod.mk.inj (Option.some.inj hread')
    dsimp only at hrun
    split at hrun
    · rename_i hall
      have hthere : self.skip + size ≤ self.rb.stored c := by
        have := min_eq_left_iff.mp hall
        omega
      obtain ⟨⟨q, temp⟩, halloc, hrun⟩ := Option.bind_eq_some_iff.mp hrun
      rcases h.allocate hactive hopen hsize (.inl (by omega)) halloc with
        ⟨rfl, hlost⟩ | ⟨blk, l', rfl, hgot⟩
      · cases hrun
        obtain ⟨l', hl'⟩ := hlost.leads
        exact hl'.missed hlost.active hlost.max_connection
      · obtain ⟨rb, hlink, hrun⟩ := Option.bind_eq_some_iff.mp hrun
        obtain ⟨node, hnode, hrun⟩ := Option.bind_eq_some_iff.mp hrun
        obtain ⟨rb', hcopy, heq⟩ := Option.map_eq_some_iff.mp hrun
        cases heq
        -- the copy belongs to the slot, and its chain is as it was
        obtain ⟨hheld', hstored⟩ := hgot.kept c t hheld
        rw [← hgot.socket, hnode] at hheld'
        obtain ⟨hsp, hcopied, hsame, htracks⟩ := Ring.Held.copied hlink hcopy hheld'
          hgot.sound.tiled (by omega) hint hgot.mem hgot.fresh hsize
        have hheld₂ := hheld'
        rw [← hnode] at hheld₂ hcopied
        have hskip := hgot.skip
        have hact := hgot.sound.act (s := { q.sockets id with temp := some blk })
          (hgot.active.trans hactive) hsp
          (by rw [hgot.socket]; exact Socket.isOpen_alive hopen)
          (show 0 ≤ q.skip + size by omega)
          (fun _ => ⟨c, blk :: t, hcopied, by omega⟩) fun hdead => by
            rw [hgot.socket, Socket.isOpen_alive hopen] at hdead
            cases hdead
        have hleads := hgot.sound.act_leads hsp (by rw [hgot.socket] at hheld₂ ⊢; exact hheld₂)
          hcopied htracks hact
        exact ⟨⟨l', hgot.leads.trans h.tiled hleads⟩, hgot.active, hgot.max_connection,
          fun _ => congrArg (· + size) hskip⟩
    · cases hrun

theorem Sound.receive {size sz rd : ℤ} {env : List ReadResult} {r : Option ℤ} (h : self.Sound l)
    (hactive : self.active = some id) (hopen : (self.sockets id).status.isOpen = true)
    (hsize : 0 ≤ size) (hrd : 0 ≤ rd) (hfits : self.Fits id rd)
    (hrun : self.receive id size sz rd env = some (self', r)) :
    self.Pulled l id self' size r := by
  obtain ⟨⟨p, blk⟩, halloc, hrun⟩ := Option.bind_eq_some_iff.mp hrun
  rcases h.allocate hactive hopen hrd hfits halloc with ⟨rfl, hlost⟩ | ⟨blk, l₁, rfl, hgot⟩
  · cases hrun
    obtain ⟨l', hl'⟩ := hlost.leads
    exact hl'.missed hlost.active hlost.max_connection
  · obtain ⟨⟨p₁, b⟩, hfill, hrun⟩ := Option.bind_eq_some_iff.mp hrun
    obtain ⟨l₂, hfilled, hact₁, hmax₁, hready⟩ := hgot.sound.fill (hgot.active.trans hactive)
      (by rw [hgot.socket]; exact hopen) hgot.mem hgot.fresh hrd hfill
    have hp₁ := hgot.leads.trans h.tiled hfilled
    cases b with
    | false =>
      cases hrun
      exact hp₁.missed (hact₁.trans hgot.active) (hmax₁.trans hgot.max_connection)
    | true =>
      obtain ⟨p₂, hlink, hrun⟩ := Option.bind_eq_some_iff.mp hrun
      obtain ⟨hmem, ⟨m, hm, -, hf⟩, hopen₁, hskip₁⟩ := hready rfl
      have hactive₁ := hact₁.trans (hgot.active.trans hactive)
      obtain ⟨hlinked, hact₂, hmax₂, hstatus, hskip₂, -⟩ :=
        hp₁.sound.link_node hactive₁ hopen₁ hmem hm hf hlink
      have hp₂ := hp₁.trans h.tiled hlinked
      have hpulled := hp₂.sound.gather (hact₂.trans hactive₁) (by rw [hstatus]; exact hopen₁) hsize
        hrun
      obtain ⟨l', hl'⟩ := hpulled.leads
      refine ⟨⟨l', hp₂.trans h.tiled hl'⟩,
        hpulled.active.trans (hact₂.trans (hact₁.trans hgot.active)),
        hpulled.max_connection.trans (hmax₂.trans (hmax₁.trans hgot.max_connection)),
        fun hne => ?_⟩
      rw [hpulled.skip hne, hskip₂, hskip₁, hgot.skip]

/-- The pull reads from its socket, and into a block of so many bytes. -/
structure Wants (p : Pool) (size : ℤ) (id : ℕ) (rd_size : ℤ) : Prop where
  active : p.active = some id
  status : (p.sockets id).status = .POLLIN ∨ (p.sockets id).status = .FIRST_POLLIN
  missing : p.ringbuffer_read id size = some (rd_size, none)

/-- How many bytes are read at most when `rd_size` of `size` are there. -/
def wanted (size rd_size : ℤ) : ℤ :=
  if READBLOCKSIZE < size - rd_size then size - rd_size else READBLOCKSIZE

theorem Sound.pull {size : ℤ} {env : List ReadResult} {r : Option ℤ} (h : self.Sound l)
    (hactive : self.active = some id) (hsize : 0 ≤ size)
    (hfits : ∀ rd_size, self.Wants size id rd_size → self.Fits id (wanted size rd_size))
    (hrun : self.mread_pull size env = some (self', r)) : self.Pulled l id self' size r := by
  cases pull_step hactive hrun with
  | found hread => exact ⟨⟨l, h.found hactive hsize hread⟩, rfl, rfl, fun _ => rfl⟩
  | missed =>
    have hsame : self.Leads l id self l := .of_same h rfl fun j => ⟨rfl, rfl⟩
    exact hsame.missed rfl rfl
  | suspended hstatus => exact (h.setStatus (by rw [hstatus]; rfl) rfl).missed rfl rfl
  | @received n _ _ hread hstatus hrun =>
    have hrd : 0 ≤ wanted size n := by
      unfold wanted READBLOCKSIZE
      split <;> omega
    exact h.receive hactive (reads_open hstatus) hsize hrd (hfits n ⟨hactive, hstatus, hread⟩) hrun

end Pool

end DnServer.Gate
