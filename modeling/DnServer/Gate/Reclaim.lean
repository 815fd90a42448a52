import DnServer.Gate.Frames
import DnServer.Gate.Runs

/-!
# Making room in the ring

While there is no room the blocks of one owner after the other are collected, and the
owner is closed. Each round takes at least one block away from someone, and a slot that
has pulled something and not yielded it has blocks of its own in the ring: at the latest
when these are collected the loop ends, and before that there is always someone to
collect. A size that does not fit an `int` together with a header is not refused:
the length of its block comes out negative, which the first free block has room for.

* `Sound.reclaims`: the number of blocks in use falls with every round
  (`Evicted.fewer`).
* `reclaim_ends_iff`: the headers fit always, a frame just when its block does;
  `frame_too_long` is one that does not.
-/

namespace DnServer.Gate

open DnServer.Lib

namespace Pool

variable {self self' : Pool} {l : List ℕ} {id fuel : ℕ} {n size : ℤ} {env : List ReadResult}

/-! ## The loop -/

/-- The blocks of the ring that belong to someone. -/
def usedBlocks (self : Pool) (l : List ℕ) : Finset ℕ := l.toFinset.filter fun o => self.rb.Used o

theorem mem_usedBlocks {o : ℕ} : o ∈ self.usedBlocks l ↔ o ∈ l ∧ self.rb.Used o := by
  unfold usedBlocks
  rw [Finset.mem_filter, List.mem_toFinset]

/-- The slot has a block of its own. -/
def Owns (self : Pool) (l : List ℕ) (id : ℕ) : Prop :=
  ∃ o ∈ l, self.rb.Used o ∧ self.rb.id o = id

/-- A round takes a block away from someone. -/
theorem Evicted.fewer {cid : ℤ} (h : self.Evicted self' l cid)
    (hsome : ∃ o ∈ l, self.rb.Used o ∧ self.rb.id o = cid) :
    (self'.usedBlocks l).card < (self.usedBlocks l).card := by
  obtain ⟨o, ho, hu, hid⟩ := hsome
  refine Finset.card_lt_card ⟨fun x hx => ?_, fun hsub => ?_⟩
  · obtain ⟨hx, hux⟩ := mem_usedBlocks.mp hx
    exact mem_usedBlocks.mpr ⟨hx, (h.used x hx hux).1⟩
  · obtain ⟨-, hu'⟩ := mem_usedBlocks.mp (hsub (mem_usedBlocks.mpr ⟨ho, hu⟩))
    exact (h.used o ho hu').2 hid

/-- It leaves a slot that is not collected its blocks. -/
theorem Evicted.owns {cid : ℤ} (h : self.Evicted self' l cid) (ht : self.rb.Tiled l)
    (hne : cid ≠ id) (howns : self.Owns l id) : self'.Owns l id := by
  obtain ⟨o, ho, hu, hid⟩ := howns
  obtain ⟨hu', hid'⟩ := ht.used_same ho (h.same o ho hu (by rw [hid]; exact Ne.symm hne)) hu
  exact ⟨o, ho, hu', hid'.trans hid⟩

/-- With a block of someone in the ring, a round closes his slot. -/
theorem Sound.evict_ends {rb₁ : Ring} (h : self.Sound l) (ht : rb₁.Tiled l)
    (hmem : rb₁.mem = self.rb.mem) (hsome : ∃ o ∈ l, self.rb.Used o) :
    ∃ r p, rb₁.ringbuffer_collect = some r ∧
      ({ self with rb := r.1 } : Pool).force_close_client r.2 = some p ∧
        ∃ o ∈ l, self.rb.Used o ∧ self.rb.id o = r.2 := by
  obtain ⟨⟨rb₂, cid⟩, hc⟩ := ht.collect_ends
  have hused : ∀ o, rb₁.Used o ↔ self.rb.Used o := by
    intro o
    unfold Ring.Used Ring.Whole Ring.length Ring.id
    rw [hmem]
  have hid : ∀ o, rb₁.id o = self.rb.id o := by
    intro o
    unfold Ring.id
    rw [hmem]
  obtain ⟨-, ⟨o, ho, hu, heq⟩ | ⟨-, hnone⟩⟩ := ht.collect_spec hc
  · rw [hused] at hu
    rw [hid] at heq
    have hslot : 0 ≤ cid ∧ cid < self.max_connection := by
      rw [← heq]
      exact ⟨hu.2, h.owner o ho hu⟩
    have hclose : ({ self with rb := rb₂ } : Pool).force_close_client cid = some _ := if_pos hslot
    exact ⟨_, _, hc, hclose, o, ho, hu, heq⟩
  · obtain ⟨o, ho, hu⟩ := hsome
    exact absurd ((hused o).mpr hu) (hnone o ho)

/-- The loop ends: there is room in the empty ring, or the slot has a block of its own. -/
theorem Sound.allocate_ends (h : self.Sound l) (hactive : self.active = some id)
    (hopen : (self.sockets id).status.isOpen = true) (hn : 0 ≤ n) (hle : n ≤ 2147483628)
    (hroom : self.Owns l id ∨ ALIGN (sizeofBlock + n) ≤ self.rb.size)
    (hfuel : (self.usedBlocks l).card < fuel) : ∃ r, self.allocate id n fuel = some r := by
  induction fuel generalizing self with
  | zero => omega
  | succ fuel ih =>
    have hact : ∀ i, self.active = some i → (self.sockets i).status.isOpen = true := by
      intro i hi
      obtain rfl := Option.some.inj (hactive.symm.trans hi)
      exact hopen
    obtain ⟨rb₁, b, halloc, hnone⟩ := h.tiled.ringbuffer_alloc_ends hn hle
    rw [Pool.allocate, halloc, Option.bind_some]
    cases b with
    | some blk => exact ⟨_, rfl⟩
    | none =>
      -- who is in the way
      have hsome : ∃ o ∈ l, self.rb.Used o := by
        rcases hnone rfl with hsome | hshort
        · exact hsome
        · obtain ⟨o, ho, hu, -⟩ := hroom.resolve_right (by omega)
          exact ⟨o, ho, hu⟩
      rcases h.tiled.alloc_spec hn hle halloc with ⟨-, ht, hmem, hsize⟩ | ⟨_, _, hno, -⟩
      swap
      · cases hno
      obtain ⟨⟨rb₂, cid⟩, p, hc, hclose, hcid⟩ := h.evict_ends ht hmem hsome
      have hev := h.evict ht hmem hsize hact hc hclose
      dsimp only
      rw [hc, Option.bind_some, hclose, Option.bind_some]
      by_cases hid : cid = id
      · exact ⟨_, if_pos hid⟩
      · have hfewer := hev.fewer hcid
        dsimp only
        rw [if_neg hid]
        refine ih hev.sound (hev.active.trans hactive) ?_ ?_ (by omega)
        · rw [hev.others id (Ne.symm hid)]
          exact hopen
        · rw [hev.size]
          exact hroom.imp_left (hev.owns h.tiled hid)

/-- The loop that makes room for `n` bytes ends, with a block for them or with the slot closed. -/
def Reclaims (self : Pool) (id : ℕ) (n : ℤ) : Prop :=
  (∃ self' blk, self.allocate id n (self.rb.size + 1) = some (self', some blk) ∧
    self'.rb.length blk = sizeofBlock + n ∧ blk + sizeofBlock + n ≤ self'.rb.size) ∨
  ∃ self', self.allocate id n (self.rb.size + 1) = some (self', none) ∧
    (self'.sockets id).status = .CLOSED

/-- As many rounds as the ring has bytes are enough. -/
theorem Sound.card_usedBlocks (h : self.Sound l) :
    (self.usedBlocks l).card < self.rb.size + 1 := by
  have h1 : (self.usedBlocks l).card ≤ l.toFinset.card := Finset.card_filter_le ..
  have h2 := List.toFinset_card_le l
  have h3 := h.tiled.tiles.length_le
  omega

/-- A size that fits is made room for, or the slot is closed. -/
theorem Sound.reclaims (h : self.Sound l) (hactive : self.active = some id)
    (hopen : (self.sockets id).status.isOpen = true) (hn : 0 ≤ n) (hfits : self.Fits id n)
    (hroom : self.Owns l id ∨ ALIGN (sizeofBlock + n) ≤ self.rb.size) : self.Reclaims id n := by
  have hends : ∃ r, self.allocate id n (self.rb.size + 1) = some r := by
    rcases hfits with hle | hown
    · exact h.allocate_ends hactive hopen hn hle hroom h.card_usedBlocks
    · -- the first round meets a block of the slot itself
      obtain ⟨⟨rb₂, cid⟩, p, hc, hclose, -⟩ :=
        h.evict_ends h.tiled rfl ⟨_, h.tiled.head, hown.1⟩
      have hcid : cid = id := (h.tiled.collect_head hown.1 hc).1.trans hown.2
      rw [Pool.allocate, h.tiled.alloc_refused hown.1, Option.bind_some]
      dsimp only
      rw [hc, Option.bind_some, hclose, Option.bind_some]
      exact ⟨_, if_pos hcid⟩
  obtain ⟨⟨self', r⟩, hrun⟩ := hends
  rcases h.allocate hactive hopen hn hfits hrun with ⟨rfl, hlost⟩ | ⟨blk, l', rfl, hgot⟩
  · exact .inr ⟨self', hrun, hlost.closed⟩
  · refine .inl ⟨self', blk, hrun, hgot.fresh.length, ?_⟩
    obtain ⟨-, -, -, hspan, -, -, hend⟩ := hgot.sound.tiled.block hgot.mem
    rw [hgot.fresh.length] at hspan
    omega

/-- A size that does not fit gets a block that is not there. -/
theorem allocate_overflow {r : Option ℕ} (ht : self.rb.Tiled l) (hbig : 2147483628 < n)
    (hint : n < 2147483648) (hu : ¬self.rb.Used self.rb.head)
    (hrun : self.allocate id n fuel = some (self', r)) :
    r ≠ none ∧ self'.rb.size = self.rb.size := by
  cases fuel with
  | zero => cases hrun
  | succ fuel =>
    rw [Pool.allocate] at hrun
    obtain ⟨⟨rb₁, b⟩, halloc, hrun⟩ := Option.bind_eq_some_iff.mp hrun
    obtain ⟨hb, hsize⟩ := ht.alloc_overflow hbig hint hu halloc
    cases b with
    | none => exact absurd rfl hb
    | some blk =>
      cases hrun
      exact ⟨Option.some_ne_none blk, hsize⟩

/-- A size that does not fit is not made room for, unless the slot's own blocks are collected. -/
theorem Sound.not_reclaims (h : self.Sound l) (hint : n < 2147483648) (hno : ¬self.Fits id n) :
    ¬self.Reclaims id n := by
  have hbounded := h.tiled.bounded
  have hfour := h.tiled.size_mod
  have hbig : 2147483628 < n := by
    by_contra hle
    exact hno (.inl (by omega))
  have hall : ∀ self' r, self.allocate id n (self.rb.size + 1) = some (self', r) →
      r ≠ none ∧ self'.rb.size = self.rb.size := by
    intro self' r hrun
    by_cases hu : self.rb.Used self.rb.head
    · -- the round in which the block at the head is collected
      rw [Pool.allocate, h.tiled.alloc_refused hu, Option.bind_some] at hrun
      obtain ⟨⟨rb₂, cid⟩, hc, hrun⟩ := Option.bind_eq_some_iff.mp hrun
      obtain ⟨p, hclose, hrun⟩ := Option.bind_eq_some_iff.mp hrun
      obtain ⟨hcid, hhead, hu'⟩ := h.tiled.collect_head hu hc
      obtain ⟨hcollected, -⟩ := h.tiled.collect_spec hc
      have hne : cid ≠ id := fun heq => hno (.inr ⟨hu, hcid.symm.trans heq⟩)
      have hp : p.rb = rb₂ := by
        unfold force_close_client at hclose
        split at hclose
        · obtain rfl := Option.some.inj hclose
          rfl
        · cases hclose
      dsimp only at hrun hhead hu'
      rw [if_neg hne] at hrun
      have hpt : p.rb.Tiled l := by
        rw [hp]
        exact hcollected.tiled
      obtain ⟨h1, h2⟩ := allocate_overflow hpt hbig hint (by rw [hp, hhead]; exact hu') hrun
      exact ⟨h1, h2.trans (by rw [hp]; exact hcollected.size)⟩
    · exact allocate_overflow h.tiled hbig hint hu hrun
  rintro (⟨self', blk, hrun, -, hend⟩ | ⟨self', hrun, -⟩)
  · obtain ⟨-, hsize⟩ := hall _ _ hrun
    unfold sizeofBlock at hend
    omega
  · exact (hall _ _ hrun).1 rfl

/-! ## The loops of a pull -/

/-- The loops that make room to which `mread_pull` comes, with the pool and the size they start
from. -/
inductive Enters (self : Pool) (size : ℤ) (env : List ReadResult) (id : ℕ) : Pool → ℤ → Prop
  /-- Room for what is read. -/
  | first {rd_size : ℤ} (h : self.Wants size id rd_size) :
      Enters self size env id self (wanted size rd_size)
  /-- Room for a copy in one piece. -/
  | second {rd_size : ℤ} {p p₁ q : Pool} {blk : ℕ} (h : self.Wants size id rd_size)
      (halloc : self.allocate id (wanted size rd_size) (self.rb.size + 1) = some (p, some blk))
      (hfill : p.fill id blk (size - rd_size) (wanted size rd_size) env = some (p₁, true))
      (hlink : p₁.link_node id blk = some q)
      (hread : q.ringbuffer_read id size = some (size, none)) : Enters self size env id q size

theorem wanted_spec (size : ℤ) {rd_size : ℤ} (hrd : 0 ≤ rd_size) :
    0 ≤ wanted size rd_size ∧ (wanted size rd_size = 2048 ∨
      2048 < size ∧ wanted size rd_size ≤ size) := by
  unfold wanted READBLOCKSIZE
  split <;> omega

theorem Wants.open {rd_size : ℤ} (h : self.Wants size id rd_size) :
    (self.sockets id).status.isOpen = true := by
  rcases h.status with hs | hs <;> rw [hs] <;> rfl

/-- What is missing is known when the pull reads. -/
theorem Sound.missing {rd_size : ℤ} (h : self.Sound l) (hwants : self.Wants size id rd_size)
    (hsize : 0 ≤ size) : 0 ≤ rd_size := by
  obtain ⟨c, t, p, -, hskip, hread, -⟩ :=
    h.read_spec hwants.active (Socket.isOpen_alive hwants.open) hsize
  obtain ⟨rfl, -⟩ := Prod.mk.inj (Option.some.inj (hwants.missing.symm.trans hread))
  exact le_min hsize (by omega)

/-- A slot that has skipped something of its chain has a block. -/
theorem Sound.owns (h : self.Sound l) (hactive : self.active = some id)
    (hopen : (self.sockets id).status.isOpen = true) (hskip : 0 < self.skip) : self.Owns l id := by
  obtain ⟨c, t, hheld, hle⟩ := h.active_held hactive (Socket.isOpen_alive hopen)
  cases c with
  | nil =>
    rw [Ring.stored_nil] at hle
    omega
  | cons o c =>
    obtain ⟨ho, hu, hid⟩ := hheld.owned (by omega) (.inl List.mem_cons_self)
    exact ⟨o, ho, hu, hid⟩

/-- The first loop, for a header or behind one. -/
theorem Sound.first_reclaims {rd_size : ℤ} (h : self.Sound l) (hsize : 0 ≤ size)
    (hwants : self.Wants size id rd_size) (hafter : size ≤ READBLOCKSIZE ∨ 0 < self.skip)
    (hfits : self.Fits id (wanted size rd_size)) : self.Reclaims id (wanted size rd_size) := by
  obtain ⟨hpos, hwanted⟩ := wanted_spec size (h.missing hwants hsize)
  have hminimal := h.minimal
  refine h.reclaims hwants.active hwants.open hpos hfits ?_
  rcases hafter with hshort | hskip
  · right
    unfold READBLOCKSIZE at hshort
    rw [hwanted.resolve_right fun hlong => by omega]
    unfold ALIGN sizeofBlock
    omega
  · exact .inl (h.owns hwants.active hwants.open hskip)

/-- What was read is linked when the second loop starts. -/
theorem Sound.before_copy {rd_size : ℤ} {p p₁ q : Pool} {blk : ℕ} (h : self.Sound l)
    (hsize : 0 ≤ size) (hwants : self.Wants size id rd_size)
    (hfits : self.Fits id (wanted size rd_size))
    (halloc : self.allocate id (wanted size rd_size) (self.rb.size + 1) = some (p, some blk))
    (hfill : p.fill id blk (size - rd_size) (wanted size rd_size) env = some (p₁, true))
    (hlink : p₁.link_node id blk = some q) :
    ∃ l', self.Leads l id q l' ∧ q.active = some id ∧ (q.sockets id).status.isOpen = true := by
  have hpos := (wanted_spec size (h.missing hwants hsize)).1
  rcases h.allocate hwants.active hwants.open hpos hfits halloc with
    ⟨hno, -⟩ | ⟨_, l₁, heq, hgot⟩
  · cases hno
  · obtain rfl := Option.some.inj heq
    obtain ⟨l₂, hfilled, hact₁, -, hready⟩ := hgot.sound.fill (hgot.active.trans hwants.active)
      (by rw [hgot.socket]; exact hwants.open) hgot.mem hgot.fresh hpos hfill
    obtain ⟨hmem, ⟨m, hm, -, hf⟩, hopen₁, -⟩ := hready rfl
    have hactive₁ := hact₁.trans (hgot.active.trans hwants.active)
    obtain ⟨hlinked, hact₂, -, hstatus, -⟩ :=
      hfilled.sound.link_node hactive₁ hopen₁ hmem hm hf hlink
    exact ⟨l₂, (hgot.leads.trans h.tiled hfilled).trans h.tiled hlinked, hact₂.trans hactive₁,
      by rw [hstatus]; exact hopen₁⟩

/-- The second loop: what is copied is in the ring already. -/
theorem Sound.second_reclaims {rd_size : ℤ} {p p₁ q : Pool} {blk : ℕ} (h : self.Sound l)
    (hsize : 0 ≤ size) (hwants : self.Wants size id rd_size)
    (hfits : self.Fits id (wanted size rd_size))
    (halloc : self.allocate id (wanted size rd_size) (self.rb.size + 1) = some (p, some blk))
    (hfill : p.fill id blk (size - rd_size) (wanted size rd_size) env = some (p₁, true))
    (hlink : p₁.link_node id blk = some q)
    (hread : q.ringbuffer_read id size = some (size, none)) : q.Reclaims id size := by
  obtain ⟨l₂, hleads, hactive₂, hopen₂⟩ := h.before_copy hsize hwants hfits halloc hfill hlink
  have hq := hleads.sound
  obtain ⟨c, t, ptr, hheld, hskip, hspec, -⟩ :=
    hq.read_spec hactive₂ (Socket.isOpen_alive hopen₂) hsize
  obtain ⟨hall, -⟩ := Prod.mk.inj (Option.some.inj (hread.symm.trans hspec))
  have hthere := min_eq_left_iff.mp hall.symm
  have hskip0 := hq.skip
  have hbound := hq.size_le hheld
  have hminimal := hq.minimal
  refine hq.reclaims hactive₂ hopen₂ hsize (.inl (by omega)) ?_
  cases c with
  | nil =>
    right
    rw [Ring.stored_nil] at hthere
    unfold ALIGN sizeofBlock
    omega
  | cons o c =>
    obtain ⟨ho, hu, hid⟩ := hheld.owned (by omega) (.inl List.mem_cons_self)
    exact .inl ⟨o, ho, hu, hid⟩

/-- The loops of one pull, for a header or behind one. -/
theorem Sound.reclaims_iff (h : self.Sound l) (hsize : 0 ≤ size) (hint : size < 2147483648)
    (hafter : size ≤ READBLOCKSIZE ∨ 0 < self.skip) :
    (∀ q n, self.Enters size env id q n → q.Reclaims id n) ↔
      ∀ rd_size, self.Wants size id rd_size → self.Fits id (wanted size rd_size) := by
  constructor
  · intro hall rd_size hwants
    by_contra hno
    have hwanted := wanted_spec size (h.missing hwants hsize)
    exact h.not_reclaims (by omega) hno (hall _ _ (.first hwants))
  · intro hfits q n henters
    cases henters with
    | first hwants => exact h.first_reclaims hsize hwants hafter (hfits _ hwants)
    | second hwants halloc hfill hlink hread =>
      exact h.second_reclaims hsize hwants (hfits _ hwants) halloc hfill hlink hread

/-- What is read for a header fits. -/
theorem Sound.header_fits (h : self.Sound l) (hsize : 0 ≤ size) (hshort : size ≤ READBLOCKSIZE) :
    ∀ id rd_size, self.Wants size id rd_size → self.Fits id (wanted size rd_size) := by
  intro id rd_size hwants
  unfold READBLOCKSIZE at hshort
  have hwanted := wanted_spec size (h.missing hwants hsize)
  exact .inl (by omega)

/-- **Making room.** In every run whose pulls fit: when a header is pulled and then a frame of any
size without yielding in between, the loops for the header end, and those for the frame end just
when the frame fits: with a block of the requested size, or with the pulling socket closed. -/
theorem reclaim_ends_iff {max : ℕ} {buffer_size header size : ℤ} {start : Pool} {id : ℕ} {plen : ℤ}
    {env env' : List ReadResult} (hsmall : max < 2147483648) (hbuffer : buffer_size ≤ 2147483644)
    (hstart : ((system max buffer_size).restrict Fitting).Reachable start)
    (hheader : 0 < header ∧ header ≤ READBLOCKSIZE)
    (hpull : start.mread_pull header env = some (self, some plen))
    (hsize : 0 ≤ size ∧ size < 2147483648) :
    (∀ q n, start.Enters header env id q n → q.Reclaims id n) ∧
      ((∀ q n, self.Enters size env' id q n → q.Reclaims id n) ↔
        ∀ rd_size, self.Wants size id rd_size → self.Fits id (wanted size rd_size)) := by
  obtain ⟨l, hl⟩ := (sound hsmall hbuffer).invariant _ hstart
  have hfits := hl.header_fits hheader.1.le hheader.2
  have hshort : header < 2147483648 := by
    have := hheader.2
    unfold READBLOCKSIZE at this
    omega
  refine ⟨(hl.reclaims_iff hheader.1.le hshort (.inl hheader.2)).mpr (hfits id), ?_⟩
  obtain ⟨conn, hactive⟩ : ∃ conn, start.active = some conn := by
    cases ha : start.active with
    | none => cases (pull_idle ha hpull).2
    | some conn => exact ⟨conn, rfl⟩
  have hpulled := hl.pull hactive hheader.1.le (hfits conn) hpull
  obtain ⟨l', hl'⟩ := hpulled.leads
  have hskip := hl.skip
  have hskip' := hpulled.skip (Option.some_ne_none plen)
  exact hl'.sound.reclaims_iff hsize.1 hsize.2 (.inr (by omega))

/-- Calls one after the other. -/
theorem reachable_foldlM {T : Pool → PoolOp → Prop} {max : ℕ} {buffer_size : ℤ} {ops : List PoolOp}
    (h : ((system max buffer_size).restrict T).Reachable self)
    (hcalls : ∀ p, ((system max buffer_size).restrict T).Reachable p → ∀ op ∈ ops, T p op)
    (hrun : ops.foldlM exec self = some self') :
    ((system max buffer_size).restrict T).Reachable self' := by
  induction ops generalizing self with
  | nil =>
    cases hrun
    exact h
  | cons op ops ih =>
    obtain ⟨p, hp, hrest⟩ := Option.bind_eq_some_iff.mp hrun
    exact ih (.step h ⟨hcalls self h op List.mem_cons_self, hp⟩)
      (fun q hq o ho => hcalls q hq o (List.mem_cons_of_mem _ ho)) hrest

/-- Two connections; the bytes of the first, which waits for the rest of a frame, leave no room
for a read of the second, which is polled. -/
def crowded : List PoolOp :=
  [.poll (some [.listen (.connected 5 true)]), .poll (some [.listen (.connected 6 true)]),
    .poll (some [.socket 0 true none]),
    .pull 4 [.bytes (0 :: 0 :: 8 :: 0 :: List.replicate 2038 9)], .pull 2048 [],
    .poll (some [.socket 1 true none])]

/-- The header of the second connection is made room for: the first one is closed. -/
theorem reclaim_ends_two : ∃ start self plen,
    ((system 2 4096).restrict Fitting).Reachable start ∧ (start.sockets 0).status = .SUSPEND ∧
      start.mread_pull 4 [.bytes [0, 0, 0, 2, 65, 66]] = some (self, some plen) ∧
      (self.sockets 0).status = .CLOSED ∧
      (∀ q n, start.Enters 4 [.bytes [0, 0, 0, 2, 65, 66]] 1 q n → q.Reclaims 1 n) ∧
      ∀ q n, self.Enters 2 [] 1 q n → q.Reclaims 1 n := by
  have hrun : (crowded.foldlM exec (mread_create 2 4096)).bind (fun p =>
      (p.mread_pull 4 [.bytes [0, 0, 0, 2, 65, 66]]).bind fun r => r.2.map fun plen =>
        (plen, (p.sockets 0).status, (r.1.sockets 0).status, (r.1.sockets 1).status)) =
      some (16, .SUSPEND, .CLOSED, .READ) := by
    decide +kernel
  obtain ⟨start, hstart, hrest⟩ := Option.bind_eq_some_iff.mp hrun
  obtain ⟨⟨self, ptr⟩, hpull, hptr⟩ := Option.bind_eq_some_iff.mp hrest
  obtain ⟨plen, rfl, heq⟩ := Option.map_eq_some_iff.mp hptr
  simp only [Prod.mk.injEq] at heq
  obtain ⟨-, hwaits, hclosed, hread⟩ := heq
  have hreach := reachable_foldlM (T := Fitting) (.init ⟨Nat.two_pos, rfl⟩) (fun p hp op hop => by
    obtain ⟨l, hl⟩ := (sound (by decide) (by decide)).invariant _ hp
    simp only [crowded, List.mem_cons, List.not_mem_nil, or_false] at hop
    rcases hop with rfl | rfl | rfl | rfl | rfl | rfl
    · trivial
    · trivial
    · trivial
    · exact ⟨by decide, hl.header_fits (by decide) (by decide)⟩
    · exact ⟨by decide, hl.header_fits (by decide) (by decide)⟩
    · trivial) hstart
  -- what was read for the header has the frame too
  have hfits : ∀ rd_size, self.Wants 2 1 rd_size → self.Fits 1 (wanted 2 rd_size) := by
    intro rd_size hwants
    rcases hwants.status with hs | hs <;> rw [hread] at hs <;> cases hs
  have hsize : (0 : ℤ) ≤ 2 ∧ (2 : ℤ) < 2147483648 := by decide
  obtain ⟨hheader, hframe⟩ :=
    @reclaim_ends_iff self 2 4096 4 2 start 1 plen _ [] (by decide) (by decide) hreach (by decide)
      hpull hsize
  exact ⟨start, self, plen, hreach, hwaits, hpull, hclosed, hheader, hframe.mpr hfits⟩

/-- The calls up to the second header of a frame of `2 ^ 31 - 1` bytes. -/
def longFrame : List PoolOp :=
  [.poll (some [.listen (.connected 5 true)]), .poll (some [.socket 0 true none]),
    .pull 4 [.bytes [127, 255, 255, 255]], .pull 2147483647 [], .poll (some [.socket 0 true none])]

/-- A frame whose block is too long for an `int`: it gets a block outside the ring. -/
theorem frame_too_long : ∃ start self plen, (system 1 4096).Reachable start ∧
    start.mread_pull 4 [] = some (self, some plen) ∧
      Server.bigEndian 4 (fun i => self.rb.mem (plen.toNat + i)) = 2147483647 ∧
        ∃ q n, self.Enters 2147483647 [] 0 q n ∧ ¬q.Reclaims 0 n := by
  have hrun : (longFrame.foldlM exec (mread_create 1 4096)).bind (fun p =>
      (p.mread_pull 4 []).bind fun r => r.2.map fun plen =>
        (Server.bigEndian 4 (fun i => r.1.rb.mem (plen.toNat + i)), r.1.active,
          (r.1.sockets 0).status, decide (r.1.ringbuffer_read 0 2147483647 = some (0, none)),
            (r.1.allocate 0 2147483647 (r.1.rb.size + 1)).isNone)) =
      some (2147483647, some 0, .POLLIN, true, true) := by
    decide +kernel
  obtain ⟨start, hstart, hrest⟩ := Option.bind_eq_some_iff.mp hrun
  obtain ⟨⟨self, ptr⟩, hpull, hptr⟩ := Option.bind_eq_some_iff.mp hrest
  obtain ⟨plen, rfl, heq⟩ := Option.map_eq_some_iff.mp hptr
  simp only [Prod.mk.injEq] at heq
  obtain ⟨hlen, hactive, hstatus, hread, hnone⟩ := heq
  have hinit : ((system 1 4096).restrict fun _ _ => True).Reachable (mread_create 1 4096) :=
    .init ⟨Nat.one_pos, rfl⟩
  refine ⟨start, self, plen, (reachable_foldlM hinit (fun _ _ _ _ => trivial) hstart).of_restrict,
    hpull, hlen, self, _, .first ⟨hactive, .inl hstatus, of_decide_eq_true hread⟩, ?_⟩
  have hwanted : wanted 2147483647 0 = 2147483647 := by decide
  rw [hwanted]
  rw [Option.isNone_iff_eq_none] at hnone
  rintro (⟨p, blk, halloc, -⟩ | ⟨p, halloc, -⟩)
  · rw [hnone] at halloc
    cases halloc
  · rw [hnone] at halloc
    cases halloc

end Pool

end DnServer.Gate
