import DnServer.Gate.Calls

/-!
# The ring is partitioned at every call

Before and after each of the calls that `mread.c` makes on the ring the headers partition
it, and what is allocated is apart from the blocks of anyone, in every run whose pulls fit.

* `Sound.calls_keep`: operation by operation the calls keep the tiling, on the lemmas
  for `alloc`, `collect`, `shrink`, `link`, `copy` and `free`; between two operations it
  is part of `Sound`.
-/

namespace DnServer.Gate

open DnServer.Lib

/-! ## Calls that end -/

namespace Ring

variable {rb rb' : Ring} {l c t : List ℕ} {i n size skip length ptr src : ℤ} {o blk dst fuel : ℕ}

/-- Shrinking a fresh block to some of its bytes ends. -/
theorem Tiled.shrink_ends (h : rb.Tiled l) {s : ℤ} (hblk : blk ∈ l) (hf : rb.Fresh n blk)
    (hpos : 0 < s) (hsn : s ≤ n) : ∃ rb', rb.ringbuffer_shrink blk s = some rb' := by
  obtain ⟨-, hspan, hmod, hlespan, -, -, hsize⟩ := h.block hblk
  have hbounded := h.bounded
  have hfl := hf.length
  have hA : alignLength s = ALIGN (sizeofBlock + s) :=
    alignLength_eq hpos.le (by unfold sizeofBlock at hfl; omega)
  have hle : ALIGN (sizeofBlock + s) ≤ ALIGN (rb.length blk) := by
    rw [hfl]
    unfold ALIGN
    omega
  have hint : Memory.IsInt (s + sizeofBlock) := by
    unfold Memory.IsInt
    unfold sizeofBlock at *
    omega
  have hlen : (rb.setLength blk (s + sizeofBlock)).length blk = s + sizeofBlock :=
    Memory.getInt_putInt _ _ hint
  unfold ringbuffer_shrink
  rw [if_neg (by omega), hA]
  dsimp only
  rw [if_pos hle]
  by_cases heq : ALIGN (sizeofBlock + s) = ALIGN (rb.length blk)
  · rw [if_pos heq]
    exact ⟨_, rfl⟩
  · -- what is left begins before the block ended
    have hnext : (rb.setLength blk (s + sizeofBlock)).block_next blk =
        some (some (blk + ALIGN (sizeofBlock + s)).toNat) := by
      have hge : 0 ≤ ALIGN (sizeofBlock + s) := by
        unfold ALIGN sizeofBlock
        omega
      unfold Ring.block_next
      rw [hlen, setLength_size, add_comm s sizeofBlock, if_neg (by omega), if_pos (by omega)]
    rw [if_neg heq, hnext]
    exact ⟨_, rfl⟩

/-- The last block of a chain is found. -/
theorem Chain.last_ends (hc : Chain rb i (some o) c) (hfuel : c.length ≤ fuel) :
    ∃ b, rb.last fuel o = some b := by
  induction fuel generalizing o c with
  | zero =>
    cases hc with
    | cons _ _ _ =>
      rw [List.length_cons] at hfuel
      omega
  | succ fuel ih =>
    cases hc with
    | @cons o c hw hid hrest =>
      rw [Ring.last]
      cases hn : rb.follow o with
      | none => exact ⟨o, rfl⟩
      | some next =>
        rw [hn] at hrest
        rw [List.length_cons] at hfuel
        exact ih hrest (by omega)

theorem Tiled.link_ends (h : rb.Tiled l) (hc : Chain rb i (some o) c) (hsub : ∀ x ∈ c, x ∈ l) :
    ∃ rb', rb.ringbuffer_link o blk = some rb' := by
  obtain ⟨b, hb⟩ := hc.last_ends (h.chain_length hc hsub)
  exact ⟨_, congrArg (Option.map _) hb⟩

/-- The pieces of a chain that has enough data can be copied. -/
theorem Tiled.copyPieces_ends (h : rb.Tiled l) (hdst : dst ∈ l) (hw : rb.Whole dst)
    (hc : Chain rb i (some o) (o :: c)) (hsub : ∀ x ∈ o :: c, x ∈ l) (hnot : dst ∉ o :: c)
    (hrest : ∀ x ∈ c, rb.offset x = 0 ∧ sizeofBlock < rb.length x) (hptr : dst + 16 ≤ ptr)
    (hlen : 0 ≤ length) (hend : ptr + size ≤ dst + rb.span dst)
    (hstored : size ≤ length + rb.stored c) (hfuel : c.length < fuel) :
    ∃ r, rb.copyPieces fuel ptr src length size o = some r := by
  induction fuel generalizing rb o c ptr src length size with
  | zero => omega
  | succ fuel ih =>
    rw [Ring.copyPieces]
    -- the induction is on the chain, whose blocks hold what is still to be copied
    by_cases hlt : length < size
    swap
    · rw [if_neg hlt]
      exact ⟨_, rfl⟩
    rw [if_pos hlt]
    have h16 : 16 ≤ rb.span dst := by
      have := h.block hdst
      have := (h.whole hdst).mp hw
      omega
    -- a copy goes into the data of `dst` and leaves the chain as it is
    have hq : SameOutside rb (rb.memcpy ptr src length) (dst + 16) (dst + rb.span dst) :=
      rb.memcpy_outside src (by omega) (by omega)
    have hin : Inside rb (rb.memcpy ptr src length) dst := ⟨hq.mono (by omega) le_rfl, rfl⟩
    have hother : ∀ x ∈ o :: c, SameBlock rb (rb.memcpy ptr src length) x := by
      intro x hx
      apply h.sameBlock hin hdst (hsub x hx)
      rintro rfl
      exact hnot hx
    have hfields : ∀ x ∈ c, (rb.memcpy ptr src length).offset x = rb.offset x ∧
        (rb.memcpy ptr src length).length x = rb.length x := fun x hx =>
      h.same_fields (hsub x (List.mem_cons_of_mem _ hx)) (hc.mem (List.mem_cons_of_mem _ hx)).1
        (hother x (List.mem_cons_of_mem _ hx))
    have hchain : Chain (rb.memcpy ptr src length) i (some o) (o :: c) := hc.same h hsub hother
    dsimp only
    cases c with
    | nil =>
      rw [stored_nil] at hstored
      omega
    | cons next c =>
      obtain ⟨hoff, hnlen⟩ := hrest next List.mem_cons_self
      obtain ⟨hoff', hlen'⟩ := hfields next List.mem_cons_self
      have hfollow : (rb.memcpy ptr src length).follow o = some next := by
        cases hchain with
        | cons _ _ hnext =>
          generalize (rb.memcpy ptr src length).follow o = p at hnext
          cases hnext
          rfl
      have hnext : Chain (rb.memcpy ptr src length) i (some next) (next :: c) := by
        cases hchain with
        | cons _ _ hnext =>
          rwa [hfollow] at hnext
      rw [hfollow]
      dsimp only
      rw [if_pos (hoff'.trans hoff)]
      rw [stored_cons, hoff] at hstored
      have hsame : (rb.memcpy ptr src length).stored c = rb.stored c :=
        stored_congr fun x hx => hfields x (List.mem_cons_of_mem _ hx)
      refine ih (h.inside hin hdst) ?_ hnext (fun x hx => hsub x (List.mem_cons_of_mem _ hx))
        (fun hm => hnot (List.mem_cons_of_mem _ hm)) (fun x hx => ?_) (by omega) ?_ ?_ ?_ ?_
      · unfold Whole at hw ⊢
        rwa [hin.length]
      · obtain ⟨h1, h2⟩ := hfields x (List.mem_cons_of_mem _ hx)
        rw [h1, h2]
        exact hrest x (List.mem_cons_of_mem _ hx)
      · rw [hlen']
        omega
      · rw [hin.span]
        omega
      · rw [hsame, hlen']
        omega
      · rw [List.length_cons] at hfuel
        omega

/-- Data that is in a chain can be copied into a block of its size. -/
theorem Tiled.copy_ends (h : rb.Tiled l) (hdst : dst ∈ l) (hc : Chain rb i (some o) c)
    (hsub : ∀ x ∈ c, x ∈ l) (hnot : dst ∉ c) (hfill : rb.Filled c) (hn : 0 ≤ n)
    (hlen : rb.length dst = sizeofBlock + n) (hskip : 0 ≤ skip) (hlt : skip < rb.stored c)
    (hle : skip + n ≤ rb.stored c) : ∃ rb', rb.ringbuffer_copy o skip dst = some rb' := by
  obtain ⟨-, -, -, hspan, -⟩ := h.block hdst
  have hw : rb.Whole dst := .inr (by omega)
  have hloop : ∀ (fuel o : ℕ) (c : List ℕ) (length skip : ℤ), Chain rb i (some o) (o :: c) →
      (∀ x ∈ o :: c, x ∈ l) → dst ∉ o :: c →
      (∀ x ∈ c, rb.offset x = 0 ∧ sizeofBlock < rb.length x) → 0 ≤ skip →
      skip < length + rb.stored c → skip + n ≤ length + rb.stored c → c.length < fuel →
      ∃ rb', rb.copyFrom dst n fuel o length skip = some rb' := by
    intro fuel
    induction fuel with
    | zero =>
      intro o c length skip _ _ _ _ _ _ _ hfuel
      omega
    | succ fuel ih =>
      intro o c length skip hc hsub hnot hrest hskip hlt hle hfuel
      rw [Ring.copyFrom]
      by_cases hin : skip < length
      · rw [if_pos hin]
        obtain ⟨r, hr⟩ : ∃ r, rb.copyPieces (fuel + 1) (dst + sizeofBlock)
            (o + sizeofBlock + rb.offset o + skip) (length - skip) n o = some r :=
          h.copyPieces_ends hdst hw hc hsub hnot hrest (by unfold sizeofBlock; omega) (by omega)
            (by omega) (by omega) hfuel
        exact ⟨_, congrArg (Option.map _) hr⟩
      · rw [if_neg hin]
        cases c with
        | nil =>
          rw [stored_nil] at hlt
          omega
        | cons next c =>
          obtain ⟨hoff, hnlen⟩ := hrest next List.mem_cons_self
          cases hc with
          | cons _ _ hnext =>
            have hfollow : rb.follow o = some next := by
              generalize rb.follow o = p at hnext
              cases hnext
              rfl
            rw [hfollow] at hnext ⊢
            dsimp only
            rw [if_pos hoff]
            rw [stored_cons, hoff] at hlt hle
            rw [List.length_cons] at hfuel
            exact ih next c _ _ hnext (fun x hx => hsub x (List.mem_cons_of_mem _ hx))
              (fun hm => hnot (List.mem_cons_of_mem _ hm))
              (fun x hx => hrest x (List.mem_cons_of_mem _ hx)) (by omega) (by omega) (by omega)
              (by omega)
  have hfuel := h.chain_length hc hsub
  unfold ringbuffer_copy
  rw [hlen, show sizeofBlock + n - sizeofBlock = n by ring]
  obtain ⟨c, rfl⟩ : ∃ c', c = o :: c' := by
    cases hc with
    | cons _ _ _ => exact ⟨_, rfl⟩
  rw [stored_cons] at hlt hle
  rw [List.length_cons] at hfuel
  exact hloop _ o c _ skip hc hsub hnot hfill.2 hskip hlt hle (by omega)

/-! ## What a call keeps -/

/-- Walking the headers from the start of the ring visits blocks that partition it. -/
def Partitioned (rb : Ring) : Prop := ∃ l, rb.blocks = some l ∧ Tiles rb.span 0 rb.size l

/-- The bytes of an allocated block with its header are apart from every block of someone. -/
def Unshared (rb : Ring) (n : ℤ) (blk : ℕ) : Prop :=
  ∀ l, rb.blocks = some l → ∀ o ∈ l, rb.Used o →
    blk + sizeofBlock + n ≤ o ∨ o + rb.span o ≤ blk

/-- The call is made on a partitioned ring and leaves one, and what it allocates is apart. -/
def Keeps (rb : Ring) (c : RingCall) : Prop :=
  rb.Partitioned ∧ ∃ rb' r, c.exec rb = some (rb', r) ∧ rb'.Partitioned ∧
    ∀ n blk, c = .alloc n → r = some blk → rb.Unshared n blk

theorem Tiled.partitioned (h : rb.Tiled l) : rb.Partitioned := ⟨l, h.blocks, h.tiles⟩

theorem Tiled.keeps {l' : List ℕ} {c : RingCall} {r : Option ℕ} (h : rb.Tiled l)
    (hexec : c.exec rb = some (rb', r)) (h' : rb'.Tiled l') (hno : ∀ n, c ≠ .alloc n) :
    rb.Keeps c :=
  ⟨h.partitioned, rb', r, hexec, h'.partitioned, fun n _ hc _ => absurd hc (hno n)⟩

/-- What is allocated is no block of someone. -/
theorem Allocated.unshared {l' : List ℕ} (h : Allocated rb rb' l l' n blk) (ht : rb.Tiled l) :
    rb.Unshared n blk := by
  intro l₁ hl₁ o ho hu
  obtain rfl := Option.some.inj (ht.blocks.symm.trans hl₁)
  obtain ⟨ho', hne, hsame⟩ := h.keeps o ho hu
  obtain ⟨-, -, -, hle, -⟩ := h.tiled.block h.mem
  rw [h.fresh.length] at hle
  have hspan := hsame.span (ht.block ho).2.2.2.2.2.1
  rcases Nat.lt_or_gt_of_ne hne with hlt | hgt
  · have := h.tiled.tiles.disjoint ho' h.mem hlt
    omega
  · have := h.tiled.tiles.disjoint h.mem ho' hgt
    omega

/-- An allocation whose size fits, or with a block of someone in its way. -/
theorem Tiled.keeps_alloc (h : rb.Tiled l) (hn : 0 ≤ n)
    (hfits : n ≤ 2147483628 ∨ rb.Used rb.head) : rb.Keeps (.alloc n) := by
  rcases hfits with hle | hu
  · obtain ⟨rb', r, halloc, -⟩ := h.ringbuffer_alloc_ends hn hle
    rcases h.alloc_spec hn hle halloc with ⟨rfl, ht, -⟩ | ⟨blk, l', rfl, hal⟩
    · exact ⟨h.partitioned, rb', none, halloc, ht.partitioned, fun _ _ _ hr => nomatch hr⟩
    · refine ⟨h.partitioned, rb', some blk, halloc, hal.tiled.partitioned, fun m b hm hb => ?_⟩
      cases hm
      cases hb
      exact hal.unshared h
  · exact ⟨h.partitioned, rb, none, h.alloc_refused hu, h.partitioned, fun _ _ _ hr => nomatch hr⟩

theorem Tiled.keeps_collect (h : rb.Tiled l) : rb.Keeps .collect := by
  obtain ⟨r, hc⟩ := h.collect_ends
  obtain ⟨hcollected, -⟩ := h.collect_spec hc
  exact h.keeps (RingCall.exec_collect hc) hcollected.tiled (by simp)

/-- Giving a block back. -/
theorem Tiled.keeps_return (h : rb.Tiled l) (hblk : blk ∈ l) : rb.Keeps (.shrink blk 0) := by
  have hshrink : rb.ringbuffer_shrink blk 0 = some { rb with head := blk } := if_pos rfl
  exact h.keeps (RingCall.exec_shrink hshrink) (h.setHead hblk) (by simp)

end Ring

namespace Pool

variable {self self' : Pool} {l l' : List ℕ} {id blk fuel : ℕ} {n : ℤ}

/-- Every call of the list is made on a partitioned ring and leaves one. -/
def AllKeep (es : List (Ring × RingCall)) : Prop := ∀ e ∈ es, e.1.Keeps e.2

theorem AllKeep.nil : AllKeep [] := by
  intro e he
  cases he

theorem AllKeep.cons {rb : Ring} {c : RingCall} {es : List (Ring × RingCall)} (h : rb.Keeps c)
    (hes : AllKeep es) : AllKeep ((rb, c) :: es) := by
  intro e he
  rcases List.mem_cons.mp he with rfl | he
  · exact h
  · exact hes e he

theorem AllKeep.append {es es' : List (Ring × RingCall)} (h : AllKeep es) (h' : AllKeep es') :
    AllKeep (es ++ es') := by
  intro e he
  rcases List.mem_append.mp he with he | he
  · exact h e he
  · exact h' e he

/-! ## The calls of each function -/

theorem Sound.closeCalls_keep (h : self.Sound l) (hactive : self.active = some id)
    (hopen : (self.sockets id).status.isOpen = true) : AllKeep (self.closeCalls id) := by
  obtain ⟨c, t, hheld, -⟩ := h.active_held hactive (Socket.isOpen_alive hopen)
  obtain ⟨rb₁, hfree₁, hsp₁, hheld₁, -⟩ := hheld.free_copies h.tiled (by omega)
  obtain ⟨rb₂, hfree₂, hsp₂, -⟩ := hheld₁.free_chain hsp₁.tiled (by omega)
  unfold closeCalls
  rw [hfree₁]
  exact .cons (h.tiled.keeps (RingCall.exec_free hfree₁) hsp₁.tiled (by simp))
    (.cons (hsp₁.tiled.keeps (RingCall.exec_free hfree₂) hsp₂.tiled (by simp)) .nil)

theorem Sound.dropCalls_keep (h : self.Sound l) (hactive : self.active = some id)
    (hopen : (self.sockets id).status.isOpen = true) (hblk : blk ∈ l) :
    AllKeep (self.dropCalls id blk) := by
  have hshrink : self.rb.ringbuffer_shrink blk 0 = some { self.rb with head := blk } := if_pos rfl
  have hspare : self.Leads l id _ l := h.spare (h.tiled.spares_setHead hblk _)
  unfold dropCalls
  rw [hshrink]
  exact .cons (h.tiled.keeps_return hblk) (hspare.sound.closeCalls_keep hactive hopen)

theorem Sound.linkCalls_keep (h : self.Sound l) (hactive : self.active = some id)
    (hopen : (self.sockets id).status.isOpen = true) (hblk : blk ∈ l) (hn : 0 < n)
    (hf : self.rb.Fresh n blk) : AllKeep (self.linkCalls id blk) := by
  have hid := h.active id hactive
  have hsmall := h.small
  have hint : Memory.IsInt id := by
    unfold Memory.IsInt
    omega
  obtain ⟨c, t, hheld, -⟩ := h.active_held hactive (Socket.isOpen_alive hopen)
  unfold linkCalls
  cases hnode : (self.sockets id).node with
  | none =>
    obtain ⟨hsp, -⟩ := (hnode ▸ hheld).first h.tiled (by omega) hint hblk hf hn
    exact .cons (h.tiled.keeps rfl hsp.tiled (by simp)) .nil
  | some node =>
    obtain ⟨rb, hlink⟩ : ∃ rb, self.rb.ringbuffer_link node blk = some rb :=
      h.tiled.link_ends (hnode ▸ hheld.chain) hheld.sub
    obtain ⟨hsp, -⟩ := (hnode ▸ hheld).append h.tiled (by omega) hint hblk hf hn hlink
    exact .cons (h.tiled.keeps (RingCall.exec_link hlink) hsp.tiled (by simp)) .nil

theorem Sound.allocateCalls_keep (h : self.Sound l) (hactive : self.active = some id)
    (hopen : (self.sockets id).status.isOpen = true) (hn : 0 ≤ n) (hfits : self.Fits id n) :
    AllKeep (self.allocateCalls id n fuel) := by
  induction fuel generalizing self with
  | zero => exact .nil
  | succ fuel ih =>
    have hact : ∀ i, self.active = some i → (self.sockets i).status.isOpen = true := by
      intro i hi
      obtain rfl := Option.some.inj (hactive.symm.trans hi)
      exact hopen
    rw [allocateCalls]
    refine .cons (h.tiled.keeps_alloc hn (hfits.imp_right And.left)) ?_
    cases halloc : self.rb.ringbuffer_alloc n with
    | none => exact .nil
    | some r =>
      obtain ⟨rb₁, b⟩ := r
      cases b with
      | some blk => exact .nil
      | none =>
        -- a refused allocation leaves the ring, but for the head
        have hrefused : rb₁.Tiled l ∧ rb₁.mem = self.rb.mem ∧ rb₁.size = self.rb.size := by
          rcases hfits with hle | hown
          · rcases h.tiled.alloc_spec hn hle halloc with ⟨-, hrest⟩ | ⟨_, _, hno, -⟩
            · exact hrest
            · cases hno
          · rw [h.tiled.alloc_refused hown.1] at halloc
            cases halloc
            exact ⟨h.tiled, rfl, rfl⟩
        obtain ⟨ht, hmem, hsize⟩ := hrefused
        refine .cons ht.keeps_collect ?_
        cases hc : rb₁.ringbuffer_collect with
        | none => exact .nil
        | some r =>
          dsimp only
          cases hclose : ({ self with rb := r.1 } : Pool).force_close_client r.2 with
          | none => exact .nil
          | some p =>
            dsimp only
            by_cases hid : r.2 = id
            · rw [if_pos hid]
              exact .nil
            · rw [if_neg hid]
              have hev := h.evict ht hmem hsize hact hc hclose
              refine ih hev.sound (hev.active.trans hactive) ?_ (.inl ?_)
              · rw [hev.others id (Ne.symm hid)]
                exact hopen
              · refine hfits.resolve_right fun hown => hid ?_
                rw [h.tiled.alloc_refused hown.1] at halloc
                cases halloc
                exact (h.tiled.collect_head hown.1 hc).1.trans hown.2

theorem Sound.fillCalls_keep {sz rd : ℤ} {env : List ReadResult} (h : self.Sound l)
    (hactive : self.active = some id) (hopen : (self.sockets id).status.isOpen = true)
    (hblk : blk ∈ l) (hf : self.rb.Fresh rd blk) (hrd : 0 ≤ rd) :
    AllKeep (self.fillCalls id blk sz rd env) := by
  have hreturn : AllKeep [(self.rb, .shrink blk 0)] := .cons (h.tiled.keeps_return hblk) .nil
  induction env with
  | nil => exact hreturn
  | cons e env ih =>
    cases e with
    | EINTR => exact ih
    | EWOULDBLOCK => exact hreturn
    | failed => exact h.dropCalls_keep hactive hopen hblk
    | bytes data =>
      unfold fillCalls
      simp only
      generalize (if (self.sockets id).status = SocketStatus.FIRST_POLLIN then _ else 0) = httplen
      have hdata : ((data.take rd.toNat).length : ℤ) ≤ rd := by
        have := List.length_take_le rd.toNat data
        omega
      have hrest : (((data.take rd.toNat).drop httplen).length : ℤ) ≤ rd := by
        rw [List.length_drop]
        omega
      obtain ⟨hfirst, hf₁⟩ : Leads self l id _ l ∧ _ := h.write hblk hf hdata
      obtain ⟨hsecond, hf₂⟩ : Leads _ l id _ l ∧ _ := hfirst.sound.write hblk hf₁ hrest
      -- the bytes are written, and those behind a preamble once more
      have hwrites : AllKeep ((self.rb, .write blk (data.take rd.toNat)) ::
          if httplen = 0 then []
          else [({ self.rb with mem := self.rb.mem.putBytes (blk + 16) (data.take rd.toNat) },
            .write blk ((data.take rd.toNat).drop httplen))]) := by
        refine .cons (h.tiled.keeps rfl hfirst.sound.tiled (by simp)) ?_
        split_ifs
        · exact .nil
        · exact .cons (hfirst.sound.tiled.keeps rfl hsecond.sound.tiled (by simp)) .nil
      refine hwrites.append ?_
      generalize hmem : (if httplen = 0 then _ else _ : Memory) = mem
      obtain ⟨hq, hfq⟩ : Sound { self with rb := { self.rb with mem := mem } } l ∧
          Ring.Fresh { self.rb with mem := mem } rd blk := by
        rw [← hmem]
        split
        · exact ⟨hfirst.sound, hf₁⟩
        · exact ⟨hsecond.sound, hf₂⟩
      by_cases hempty : data.take rd.toNat = []
      · rw [if_pos hempty]
        exact hq.dropCalls_keep hactive hopen hblk
      · rw [if_neg hempty]
        by_cases hnone : (data.take rd.toNat).drop httplen = []
        · rw [if_pos hnone]
          exact .nil
        · rw [if_neg hnone]
          have hpos : 0 < (((data.take rd.toNat).drop httplen).length : ℤ) := by
            have := List.length_pos_iff.mpr hnone
            omega
          generalize (((data.take rd.toNat).drop httplen).length : ℤ) = m at hpos hrest ⊢
          obtain ⟨rb, hrb⟩ := hq.tiled.shrink_ends hblk hfq hpos hrest
          obtain ⟨l', hal, -⟩ := hq.tiled.shrink_spec hblk hfq hpos hrest hrb
          have hshrunk : Leads _ l id _ l' := hq.spare (hal.spares hq.tiled _)
          refine .cons (hq.tiled.keeps (RingCall.exec_shrink hrb) hal.tiled (by simp)) ?_
          rw [hrb]
          dsimp only
          split_ifs
          · exact hshrunk.sound.linkCalls_keep hactive hopen hal.mem hpos hal.fresh
          · exact .nil

/-- The calls that make the copy: so many bytes are in the chain behind what was skipped. -/
theorem Sound.copyCalls_keep {temp : ℕ} {c t : List ℕ} (h : self.Sound l)
    (hid : id < self.max_connection) (htemp : temp ∈ l) (hf : self.rb.Fresh n temp) (hn : 0 ≤ n)
    (hheld : self.rb.Held l id (self.sockets id).node (self.sockets id).temp c t)
    (hlt : self.skip < self.rb.stored c) (hle : self.skip + n ≤ self.rb.stored c) :
    AllKeep (self.copyCalls id temp) := by
  have hsmall := h.small
  have hint : Memory.IsInt id := by
    unfold Memory.IsInt
    omega
  obtain ⟨hnot, hnot'⟩ := hf.not_held (by omega) hheld
  have halone : self.rb.Held l id (self.sockets id).node none c [] :=
    ⟨hheld.chain, .nil, hheld.sub, by simp, by simp, hheld.filled⟩
  obtain ⟨hown, hone, -⟩ := halone.made rfl h.tiled (by omega) hint htemp hf hn
  -- wherever the copies are linked, the data is where it was
  have hcopy : ∀ q node, Ring.Apart self.rb q l (temp :: t) →
      Ring.Chain q id (some temp) (temp :: t) → q.length temp = sizeofBlock + n →
      (self.sockets id).node = some node →
      q.Tiled l ∧ q.Keeps (.copy node self.skip temp) := by
    intro q node hboth hchain hlen hnode
    have hdisj : ∀ x ∈ c, x ∉ temp :: t := by
      intro x hx hm
      rcases List.mem_cons.mp hm with rfl | hm
      · exact hnot hx
      · exact hheld.apart x hx hm
    have hdata := hheld.chain.apart h.tiled hheld.sub hboth hdisj
    have hfields := hheld.chain.fields h.tiled hheld.sub hboth hdisj
    have hstored := Ring.stored_congr hfields
    rw [hnode] at hdata
    obtain ⟨rb', hends⟩ := hboth.tiled.copy_ends htemp hdata hheld.sub hnot
      (hheld.filled.congr hfields) hn hlen h.skip (by rw [hstored]; exact hlt)
      (by rw [hstored]; exact hle)
    have hcopied := hboth.tiled.copy_spec htemp (hchain.mem List.mem_cons_self).1 hdata hheld.sub
      hnot hint hends
    exact ⟨hboth.tiled, hboth.tiled.keeps (RingCall.exec_copy hends)
      (hboth.tiled.inside hcopied.inside htemp) (by simp)⟩
  unfold copyCalls
  refine .cons (h.tiled.keeps rfl hown.tiled (by simp)) ?_
  cases hold : (self.sockets id).temp with
  | none =>
    rw [hold] at hheld
    obtain ⟨hboth, hchain, hlen⟩ := hheld.made rfl h.tiled (by omega) hint htemp hf hn
    cases hnode : (self.sockets id).node with
    | none => exact .nil
    | some node => exact .cons (hcopy _ node hboth hchain hlen hnode).2 .nil
  | some old =>
    rw [hold] at hheld
    obtain ⟨q, hlink⟩ : ∃ q, (self.rb.setId temp id).ringbuffer_link temp old = some q :=
      hown.tiled.link_ends hone (by simpa using htemp)
    obtain ⟨hboth, hchain, hlen⟩ :=
      hheld.made (q := q) (by exact hlink) h.tiled (by omega) hint htemp hf hn
    refine .cons (hown.tiled.keeps (RingCall.exec_link hlink) hboth.tiled (by simp)) ?_
    rw [hlink]
    cases hnode : (self.sockets id).node with
    | none => exact .nil
    | some node => exact .cons (hcopy q node hboth hchain hlen hnode).2 .nil

theorem Sound.gatherCalls_keep (h : self.Sound l) (hactive : self.active = some id)
    (hopen : (self.sockets id).status.isOpen = true) (hn : 0 ≤ n)
    (hmore : ∃ c t, self.rb.Held l id (self.sockets id).node (self.sockets id).temp c t ∧
      self.skip < self.rb.stored c) : AllKeep (self.gatherCalls id n) := by
  obtain ⟨c, t, p, hheld, -, hread, -⟩ := h.read_spec hactive (Socket.isOpen_alive hopen) hn
  obtain ⟨c', t', hheld', hlt⟩ := hmore
  rw [hheld'.chain.unique hheld.chain] at hlt
  have hbound := h.size_le hheld
  have hskip0 := h.skip
  unfold gatherCalls
  rw [hread]
  cases p with
  | some ptr => exact .nil
  | none =>
    dsimp only
    split_ifs with hall
    · have hthere : self.skip + n ≤ self.rb.stored c := by
        have := min_eq_left_iff.mp hall
        omega
      refine (h.allocateCalls_keep hactive hopen hn (.inl (by omega))).append ?_
      cases halloc : self.allocate id n (self.rb.size + 1) with
      | none => exact .nil
      | some r =>
        obtain ⟨q, temp⟩ := r
        rcases h.allocate hactive hopen hn (.inl (by omega)) halloc with
          ⟨rfl, -⟩ | ⟨blk, l', rfl, hgot⟩
        · exact .nil
        · obtain ⟨hkept, hstored⟩ := hgot.kept c t hheld
          rw [← hgot.socket] at hkept
          refine hgot.sound.copyCalls_keep ?_ hgot.mem hgot.fresh hn hkept ?_ ?_
          · rw [hgot.max_connection]
            exact h.active id hactive
          · rw [hgot.skip, hstored]
            exact hlt
          · rw [hgot.skip, hstored]
            exact hthere
    · exact .nil

theorem Sound.receiveCalls_keep {size sz rd : ℤ} {env : List ReadResult} (h : self.Sound l)
    (hactive : self.active = some id) (hopen : (self.sockets id).status.isOpen = true)
    (hsize : 0 ≤ size) (hrd : 0 ≤ rd) (hfits : self.Fits id rd) :
    AllKeep (self.receiveCalls id size sz rd env) := by
  unfold receiveCalls
  refine (h.allocateCalls_keep hactive hopen hrd hfits).append ?_
  cases halloc : self.allocate id rd (self.rb.size + 1) with
  | none => exact .nil
  | some r =>
    obtain ⟨p, blk⟩ := r
    rcases h.allocate hactive hopen hrd hfits halloc with ⟨rfl, -⟩ | ⟨blk, l₁, rfl, hgot⟩
    · exact .nil
    · have hactive₁ := hgot.active.trans hactive
      have hopen₁ : (p.sockets id).status.isOpen = true := by
        rw [hgot.socket]
        exact hopen
      dsimp only
      refine (hgot.sound.fillCalls_keep hactive₁ hopen₁ hgot.mem hgot.fresh hrd).append ?_
      cases hfill : p.fill id blk sz rd env with
      | none => exact .nil
      | some r =>
        obtain ⟨p₁, b⟩ := r
        cases b with
        | false => exact .nil
        | true =>
          obtain ⟨l₂, hfilled, hact, -, hready⟩ :=
            hgot.sound.fill hactive₁ hopen₁ hgot.mem hgot.fresh hrd hfill
          obtain ⟨hmem, ⟨m, hm, -, hf⟩, hopen₂, -⟩ := hready rfl
          have hactive₂ := hact.trans hactive₁
          dsimp only
          refine (hfilled.sound.linkCalls_keep hactive₂ hopen₂ hmem hm hf).append ?_
          cases hlink : p₁.link_node id blk with
          | none => exact .nil
          | some p₂ =>
            obtain ⟨hlinked, hact', -, hstatus, -, hmore⟩ :=
              hfilled.sound.link_node hactive₂ hopen₂ hmem hm hf hlink
            exact hlinked.sound.gatherCalls_keep (hact'.trans hactive₂)
              (by rw [hstatus]; exact hopen₂) hsize hmore

theorem Sound.pullCalls_keep {size : ℤ} {env : List ReadResult} (h : self.Sound l)
    (hsize : 0 ≤ size)
    (hfits : ∀ id rd_size, self.Wants size id rd_size → self.Fits id (wanted size rd_size)) :
    AllKeep (self.pullCalls size env) := by
  unfold pullCalls
  cases hactive : self.active with
  | none => exact .nil
  | some id =>
    dsimp only
    split
    · rename_i rd_size hread
      split_ifs with hstatus
      · have hwants : self.Wants size id rd_size := ⟨hactive, hstatus, hread⟩
        have hrd := (wanted_spec size (h.missing hwants hsize)).1
        exact h.receiveCalls_keep hactive hwants.open hsize hrd (hfits id rd_size hwants)
      · exact .nil
    · exact .nil

theorem Sound.yieldCalls_keep (h : self.Sound l) : AllKeep self.yieldCalls := by
  unfold yieldCalls
  cases hactive : self.active with
  | none => exact .nil
  | some id =>
    obtain ⟨rb, hfree, hfirst⟩ := h.free_temp hactive
    have hp := hfirst.sound
    dsimp only
    refine .cons (h.tiled.keeps (RingCall.exec_free hfree) hp.tiled (by simp)) ?_
    rw [hfree]
    cases hnode : (self.sockets id).node with
    | none => exact .nil
    | some node =>
      have hs : (self.sockets id).status.alive = true := by
        by_contra hdead
        have := (h.quiet id (Bool.eq_false_iff.mpr hdead)).1
        rw [hnode] at this
        cases this
      obtain ⟨c, t, hheld, -⟩ := hp.active_held hactive (by rw [set_self]; exact hs)
      have hnil : t = [] := by
        rw [set_self] at hheld
        cases hheld.copies
        rfl
      rw [hnil, set_self] at hheld
      change rb.Held l id (self.sockets id).node none c [] at hheld
      rw [hnode] at hheld
      obtain ⟨rb', r, c', hy, hsp, -⟩ := hheld.yielded hp.tiled hp.skip
      exact .cons (hp.tiled.keeps hy hsp.tiled (by simp)) .nil

/-- Every call of an operation that fits. -/
theorem Sound.calls_keep {op : PoolOp} (h : self.Sound l) (hfits : self.Fitting op) :
    AllKeep (self.calls op) := by
  cases op with
  | poll wait => exact .nil
  | pull size env => exact h.pullCalls_keep hfits.1 hfits.2
  | yield => exact h.yieldCalls_keep
  | closed =>
    unfold calls
    dsimp only
    split
    · split_ifs
      · exact h.yieldCalls_keep
      · exact .nil
    · exact .nil
  | push id buffer env => exact .nil
  | close_client id => exact .nil

/-! ## Over whole runs -/

/-- **Tiling.** In every run whose pulls fit the headers partition the ring, in every state and at
every call of every operation that fits as well; each call ends, a block that is allocated is
apart from the blocks of anyone, and the calls lead from the ring before the operation to the
ring after it. -/
theorem ring_partitioned {max : ℕ} {buffer_size : ℤ} {p : Pool} (hsmall : max < 2147483648)
    (hbuffer : buffer_size ≤ 2147483644)
    (hp : ((system max buffer_size).restrict Fitting).Reachable p) :
    p.rb.Partitioned ∧ ∀ op, p.Fitting op →
      (∀ e ∈ p.calls op, e.1.Keeps e.2) ∧
        ∀ p', p.exec op = some p' → Ring.Linked p.rb (p.calls op) p'.rb := by
  obtain ⟨l, hl⟩ := (sound hsmall hbuffer).invariant _ hp
  exact ⟨hl.tiled.partitioned, fun op hfits => ⟨hl.calls_keep hfits, fun p' => calls_linked⟩⟩

/-- The calls of a pull that finds the four bytes of a header and two more. -/
theorem ring_partitioned_header : ∃ p, ((system 1 4096).restrict Fitting).Reachable p ∧
    (p.calls (.pull 4 [.bytes [0, 0, 0, 2, 65, 66]])).map Prod.snd =
      [.alloc 2048, .write 0 [0, 0, 0, 2, 65, 66], .shrink 0 6, .own 0 0] ∧
    ∀ e ∈ p.calls (.pull 4 [.bytes [0, 0, 0, 2, 65, 66]]), e.1.Keeps e.2 := by
  have hrun : (([.poll (some [.listen (.connected 5 true)]), .poll (some [.socket 0 true none])] :
      List PoolOp).foldlM exec (mread_create 1 4096)).map (fun p =>
        (p.calls (.pull 4 [.bytes [0, 0, 0, 2, 65, 66]])).map Prod.snd) =
      some [.alloc 2048, .write 0 [0, 0, 0, 2, 65, 66], .shrink 0 6, .own 0 0] := by
    decide +kernel
  obtain ⟨p, hstart, hcalls⟩ := Option.map_eq_some_iff.mp hrun
  have hreach := reachable_foldlM (T := Fitting) (.init ⟨Nat.one_pos, rfl⟩) (fun p _ op hop => by
    simp only [List.mem_cons, List.not_mem_nil, or_false] at hop
    rcases hop with rfl | rfl <;> trivial) hstart
  obtain ⟨l, hl⟩ := (sound (by decide) (by decide)).invariant _ hreach
  have hfits : p.Fitting (.pull 4 [.bytes [0, 0, 0, 2, 65, 66]]) :=
    ⟨by decide, hl.header_fits (by decide) (by decide)⟩
  exact ⟨p, hreach, hcalls, ((ring_partitioned (by decide) (by decide) hreach).2 _ hfits).1⟩

/-- A frame of `2 ^ 31 - 1` bytes: the header that is written for it leads out of the ring. -/
theorem alloc_leaves_ring : ∃ p, (system 1 4096).Reachable p ∧
    (∃ e ∈ p.calls (.pull 2147483647 []), ¬e.1.Keeps e.2) ∧
      (p.rb.opened p.rb.head 2147483647).blocks = none := by
  have hrun : ((longFrame ++ [.pull 4 []] : List PoolOp).foldlM exec (mread_create 1 4096)).map
      (fun p => ((p.calls (.pull 2147483647 [])).map Prod.snd,
        (p.calls (.pull 2147483647 [])).all fun e => (e.2.exec e.1).isNone,
          (p.rb.opened p.rb.head 2147483647).blocks)) =
      some ([RingCall.alloc 2147483647], true, none) := by
    decide +kernel
  obtain ⟨p, hstart, heq⟩ := Option.map_eq_some_iff.mp hrun
  simp only [Prod.mk.injEq] at heq
  obtain ⟨hcalls, hnone, hblocks⟩ := heq
  have hinit : ((system 1 4096).restrict fun _ _ => True).Reachable (mread_create 1 4096) :=
    .init ⟨Nat.one_pos, rfl⟩
  refine ⟨p, (reachable_foldlM hinit (fun _ _ _ _ => trivial) hstart).of_restrict, ?_, hblocks⟩
  obtain ⟨e, he⟩ : ∃ e, e ∈ p.calls (.pull 2147483647 []) := by
    refine List.exists_mem_of_ne_nil _ fun hnil => ?_
    rw [hnil] at hcalls
    cases hcalls
  refine ⟨e, he, ?_⟩
  rintro ⟨-, rb', r, hexec, -⟩
  have hexec' := List.all_eq_true.mp hnone e he
  rw [hexec] at hexec'
  cases hexec'

end Pool

end DnServer.Gate
