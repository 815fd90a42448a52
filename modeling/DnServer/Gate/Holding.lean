import DnServer.Gate.Progress

/-!
# What a socket holds

A socket holds two chains of its own blocks: those that were read, with the data that
is not yielded yet, and the copies that were made of pieces of it. The data of a chain
can be counted, and an operation of one owner leaves what the others hold.
-/

namespace DnServer.Gate

open DnServer.Lib

namespace Ring

variable {rb rb' : Ring} {l l' c t : List ℕ} {o blk fuel : ℕ} {i j n size skip : ℤ}
  {node temp : Option ℕ}

/-! ## The data of a chain -/

/-- How much data a chain has left. -/
def stored (rb : Ring) (c : List ℕ) : ℤ :=
  (c.map fun o => rb.length o - sizeofBlock - rb.offset o).sum

@[simp]
theorem stored_nil (rb : Ring) : rb.stored [] = 0 := rfl

theorem stored_cons (rb : Ring) (o : ℕ) (c : List ℕ) :
    rb.stored (o :: c) = rb.length o - sizeofBlock - rb.offset o + rb.stored c := by
  unfold stored
  rw [List.map_cons, List.sum_cons]

theorem stored_append (rb : Ring) (c t : List ℕ) :
    rb.stored (c ++ t) = rb.stored c + rb.stored t := by
  unfold stored
  rw [List.map_append, List.sum_append]

theorem stored_congr (heq : ∀ o ∈ c, rb'.offset o = rb.offset o ∧ rb'.length o = rb.length o) :
    rb'.stored c = rb.stored c := by
  unfold stored
  refine congrArg List.sum (List.map_congr_left fun o ho => ?_)
  rw [(heq o ho).1, (heq o ho).2]

theorem Filled.stored_nonneg (h : rb.Filled c) : 0 ≤ rb.stored c := by
  induction c with
  | nil => exact le_rfl
  | cons o c ih =>
    have hrest := ih h.tail
    have hfirst := h.1
    rw [stored_cons]
    omega

theorem Tiled.size_mod (h : rb.Tiled l) : rb.size % 4 = 0 := by
  have hfour : 4 ∣ rb.size - 0 :=
    h.tiles.dvd fun o ho => Nat.dvd_of_mod_eq_zero (h.block ho).2.2.1
  omega

/-- A chain and the headers of its blocks fit the ring. -/
theorem Tiled.stored_le (h : rb.Tiled l) (hc : Chain rb i node c) (hsub : ∀ x ∈ c, x ∈ l)
    (hfill : rb.Filled c) : rb.stored c + 16 * c.length ≤ rb.size := by
  obtain ⟨d, hperm, hd⟩ := hc.nodup.subperm hsub
  have hspans : (c.map rb.span).sum ≤ rb.size := by
    have hsum := h.tiles.sum_eq
    have hle := (hd.map rb.span).sum_le_sum fun _ _ => Nat.zero_le _
    have heq := (hperm.map rb.span).sum_eq
    omega
  have hchain : ∀ d : List ℕ, (∀ x ∈ d, x ∈ l) → rb.Filled d →
      rb.stored d + 16 * d.length ≤ ((d.map rb.span).sum : ℕ) := by
    intro d
    induction d with
    | nil => simp
    | cons o d ih =>
      intro hsub hfill
      have hrest := ih (fun x hx => hsub x (List.mem_cons_of_mem _ hx)) hfill.tail
      obtain ⟨-, -, -, hlen, -⟩ := h.block (hsub o List.mem_cons_self)
      have hfirst := hfill.1
      rw [stored_cons, List.length_cons, List.map_cons, List.sum_cons]
      unfold sizeofBlock
      omega
  have := hchain c hsub hfill
  omega

/-- `ringbuffer_data` counts no further than it is asked to. -/
theorem Chain.tally_spec {ret : ℤ} (hc : Chain rb i (some o) (o :: c))
    (hrest : ∀ x ∈ c, rb.offset x = 0 ∧ sizeofBlock < rb.length x) (hfill : rb.Filled c)
    (hlt : ret < size) (hfuel : c.length < fuel) :
    rb.tally size fuel o ret = some (min size (ret + rb.stored c)) := by
  induction fuel generalizing o c ret with
  | zero => omega
  | succ fuel ih =>
    cases hc with
    | cons hw hid hchain =>
      rw [Ring.tally]
      cases hf : rb.follow o with
      | none =>
        rw [hf] at hchain
        cases hchain
        dsimp only
        rw [stored_nil, add_zero, min_eq_right hlt.le]
      | some next =>
        rw [hf] at hchain
        obtain ⟨c', rfl⟩ : ∃ c', c = next :: c' := by
          cases hchain with
          | cons _ _ _ => exact ⟨_, rfl⟩
        obtain ⟨hoff, -⟩ := hrest next List.mem_cons_self
        have hmore := hfill.tail.stored_nonneg
        rw [stored_cons, hoff, sub_zero]
        dsimp only
        by_cases hle : size ≤ ret + (rb.length next - sizeofBlock)
        · rw [if_pos hle, min_eq_left (by omega)]
        · rw [if_neg hle, ih hchain (fun x hx => hrest x (List.mem_cons_of_mem _ hx)) hfill.tail
            (by omega) (by simpa using hfuel)]
          congr 2
          ring

/-- What `ringbuffer_data` says when at most what is there was skipped. -/
theorem Chain.dataFrom_spec {length : ℤ} (hc : Chain rb i (some o) (o :: c))
    (hrest : ∀ x ∈ c, rb.offset x = 0 ∧ sizeofBlock < rb.length x) (hfill : rb.Filled c)
    (hsize : 0 ≤ size) (hskip : skip ≤ length + rb.stored c) (hfuel : c.length < fuel) :
    ∃ p, rb.dataFrom size fuel o length skip =
        some (min size (length + rb.stored c - skip), p) ∧
      (p = none → size = 0 → skip = length + rb.stored c) ∧
      (p ≠ none → skip + size ≤ length + rb.stored c ∧ skip < length + rb.stored c) := by
  induction fuel generalizing o c length skip with
  | zero => omega
  | succ fuel ih =>
    have hmore := hfill.stored_nonneg
    rw [Ring.dataFrom]
    by_cases hlt : skip < length
    · rw [if_pos hlt]
      by_cases hle : size ≤ length - skip
      · rw [if_pos hle, min_eq_left (by omega)]
        exact ⟨_, rfl, nofun, fun _ => ⟨by omega, by omega⟩⟩
      · rw [if_neg hle, hc.tally_spec hrest hfill (by omega) hfuel]
        refine ⟨none, ?_, fun _ _ => by omega, fun hne => absurd rfl hne⟩
        rw [Option.map_some]
        congr 3
        ring
    · rw [if_neg hlt]
      cases hc with
      | cons hw hid hchain =>
        cases hf : rb.follow o with
        | none =>
          rw [hf] at hchain
          cases hchain
          rw [stored_nil, add_zero] at hskip ⊢
          have heq : length = skip := by omega
          rw [if_pos heq, min_eq_right (by omega), heq, sub_self]
          exact ⟨none, rfl, fun _ _ => rfl, fun hne => absurd rfl hne⟩
        | some next =>
          rw [hf] at hchain
          obtain ⟨c', rfl⟩ : ∃ c', c = next :: c' := by
            cases hchain with
            | cons _ _ _ => exact ⟨_, rfl⟩
          obtain ⟨hoff, -⟩ := hrest next List.mem_cons_self
          rw [stored_cons, hoff, sub_zero] at hskip ⊢
          dsimp only
          rw [if_pos hoff]
          obtain ⟨p, hp, hnone, hsome⟩ := ih hchain
            (fun x hx => hrest x (List.mem_cons_of_mem _ hx)) hfill.tail
            (show skip - length ≤ rb.length next - sizeofBlock + rb.stored c' by omega)
            (by simpa using hfuel)
          refine ⟨p, ?_, fun h0 h1 => ?_, fun hne => ?_⟩
          · rw [hp]
            congr 3
            ring
          · have := hnone h0 h1
            omega
          · have := hsome hne
            omega

/-! ## Two chains -/

/-- What a socket of owner `i` holds: the chain of its node and that of its copies. -/
structure Held (rb : Ring) (l : List ℕ) (i : ℤ) (node temp : Option ℕ) (c t : List ℕ) : Prop where
  chain : Chain rb i node c
  copies : Chain rb i temp t
  sub : ∀ x ∈ c, x ∈ l
  copies_sub : ∀ x ∈ t, x ∈ l
  apart : ∀ x ∈ c, x ∉ t
  filled : rb.Filled c

theorem Held.empty (rb : Ring) (l : List ℕ) (i : ℤ) : Held rb l i none none [] [] :=
  ⟨.nil, .nil, by simp, by simp, by simp, trivial⟩

/-- How much of its chain is left behind what was skipped, and whether it is in one piece. -/
theorem Held.data_spec (h : Held rb l i (some o) temp c t) (ht : rb.Tiled l) (hsize : 0 ≤ size)
    (hskip : skip ≤ rb.stored c) :
    ∃ p, rb.ringbuffer_data o size skip = some (min size (rb.stored c - skip), p) ∧
      (p = none → size = 0 → skip = rb.stored c) ∧
      (p ≠ none → skip + size ≤ rb.stored c ∧ skip < rb.stored c) := by
  have hlen := ht.chain_length h.chain h.sub
  obtain ⟨c', rfl⟩ : ∃ c', c = o :: c' := by
    cases h.chain with
    | cons _ _ _ => exact ⟨_, rfl⟩
  rw [stored_cons] at hskip ⊢
  exact h.chain.dataFrom_spec h.filled.2 h.filled.tail hsize hskip (by simpa using hlen)

/-- What is held depends on the blocks that are held only. -/
theorem Held.same (h : Held rb l i node temp c t) (ht : rb.Tiled l)
    (hsame : ∀ x, x ∈ c ∨ x ∈ t → x ∈ l' ∧ SameBlock rb rb' x) :
    Held rb' l' i node temp c t ∧ rb'.stored c = rb.stored c := by
  have hheader : ∀ x ∈ c, rb'.offset x = rb.offset x ∧ rb'.length x = rb.length x := fun x hx =>
    ht.same_fields (h.sub x hx) (h.chain.mem hx).1 (hsame x (.inl hx)).2
  refine ⟨⟨h.chain.same ht h.sub fun x hx => (hsame x (.inl hx)).2,
    h.copies.same ht h.copies_sub fun x hx => (hsame x (.inr hx)).2,
    fun x hx => (hsame x (.inl hx)).1, fun x hx => (hsame x (.inr hx)).1, h.apart,
    h.filled.congr hheader⟩, stored_congr hheader⟩

/-- Every block that is held is its owner's. -/
theorem Held.owned (h : Held rb l i node temp c t) (hi : 0 ≤ i) {x : ℕ} (hx : x ∈ c ∨ x ∈ t) :
    x ∈ l ∧ rb.Used x ∧ rb.id x = i := by
  rcases hx with hx | hx
  · exact ⟨h.sub x hx, h.chain.used hi hx, (h.chain.mem hx).2⟩
  · exact ⟨h.copies_sub x hx, h.copies.used hi hx, (h.copies.mem hx).2⟩

/-- The block is in one of the chains of a socket of `i`. -/
def Among (rb : Ring) (l : List ℕ) (i : ℤ) (node temp : Option ℕ) (o : ℕ) : Prop :=
  ∃ c, o ∈ c ∧ (∀ x ∈ c, x ∈ l) ∧ (Chain rb i node c ∨ Chain rb i temp c)

theorem Held.among_iff (h : Held rb l i node temp c t) :
    Among rb l i node temp o ↔ o ∈ c ∨ o ∈ t := by
  constructor
  · rintro ⟨d, ho, -, hd | hd⟩
    · rw [← hd.unique h.chain]
      exact .inl ho
    · rw [← hd.unique h.copies]
      exact .inr ho
  · rintro (ho | ho)
    · exact ⟨c, ho, h.sub, .inl h.chain⟩
    · exact ⟨t, ho, h.copies_sub, .inr h.copies⟩

/-- Chains of one's own blocks stay when these are the same. -/
theorem Among.same (h : Among rb l i node temp o) (ht : rb.Tiled l) (hi : 0 ≤ i)
    (hsame : ∀ x ∈ l, rb.Used x → rb.id x = i → x ∈ l' ∧ SameBlock rb rb' x) :
    Among rb' l' i node temp o := by
  obtain ⟨c, ho, hsub, hc⟩ := h
  refine ⟨c, ho, ?_⟩
  rcases hc with hc | hc
  · have hall := fun x hx => hsame x (hsub x hx) (hc.used hi hx) (hc.mem hx).2
    exact ⟨fun x hx => (hall x hx).1, .inl (hc.same ht hsub fun x hx => (hall x hx).2)⟩
  · have hall := fun x hx => hsame x (hsub x hx) (hc.used hi hx) (hc.mem hx).2
    exact ⟨fun x hx => (hall x hx).1, .inr (hc.same ht hsub fun x hx => (hall x hx).2)⟩

/-! ## Operations of one owner -/

/-- A block of someone that is the same is still his. -/
theorem Tiled.used_same (h : rb.Tiled l) (ho : o ∈ l) (hs : SameBlock rb rb' o) (hu : rb.Used o) :
    rb'.Used o ∧ rb'.id o = rb.id o := by
  obtain ⟨hw, hid, -, -⟩ := hs.header h ho hu.1
  exact ⟨⟨hw, by rw [hid]; exact hu.2⟩, hid⟩

/-- Every block of `i` after an operation is in its chains, or was outside of them before. -/
def Tracks (rb rb' : Ring) (l : List ℕ) (i : ℤ) (c t c' t' : List ℕ) : Prop :=
  ∀ o ∈ l, rb'.Used o → rb'.id o = i →
    (o ∈ c' ∨ o ∈ t') ∨ (rb.Used o ∧ rb.id o = i ∧ o ∉ c ∧ o ∉ t)

theorem Tracks.trans {rb'' : Ring} {c' t' c'' t'' : List ℕ} (h : Tracks rb rb' l i c t c' t')
    (h' : Tracks rb' rb'' l i c' t' c'' t'') : Tracks rb rb'' l i c t c'' t'' := by
  intro o ho hu hid
  rcases h' o ho hu hid with hin | ⟨hu', hid', hc, ht⟩
  · exact .inl hin
  · rcases h o ho hu' hid' with hin | hout
    · exact absurd hin (not_or.mpr ⟨hc, ht⟩)
    · exact .inr hout

/-- An operation on the blocks `d`, of which those that stay somebody's are in the chains. -/
theorem Apart.tracks {d c' t' : List ℕ} (h : Apart rb rb' l d) (ht : rb.Tiled l)
    (hin : ∀ x ∈ d, rb'.Used x → x ∈ c' ∨ x ∈ t')
    (hkeep : ∀ x, x ∈ c ∨ x ∈ t → x ∉ d → x ∈ c' ∨ x ∈ t') : Tracks rb rb' l i c t c' t' := by
  intro o ho hu hid
  by_cases hd : o ∈ d
  · exact .inl (hin o hd hu)
  · by_cases hheld : o ∈ c ∨ o ∈ t
    · exact .inl (hkeep o hheld hd)
    · have hs := h.same o ho hd
      obtain ⟨hpos, -, -, hle, -, hfour, -⟩ := ht.block ho
      have hu' := (hs.used hfour hpos hle).mp hu
      rw [(ht.used_same ho hs hu').2] at hid
      exact .inr ⟨hu', hid, not_or.mp hheld⟩

/-- Only blocks of `i` and of nobody are touched, and only `i` gets more. -/
structure Spares (rb rb' : Ring) (l l' : List ℕ) (i : ℤ) : Prop where
  tiled : rb'.Tiled l'
  size : rb'.size = rb.size
  keeps : ∀ o ∈ l, rb.Used o → rb.id o ≠ i → o ∈ l' ∧ SameBlock rb rb' o
  owner : ∀ o ∈ l', rb'.Used o → rb'.id o = i ∨ (o ∈ l ∧ rb.Used o ∧ rb'.id o = rb.id o)

theorem Spares.trans {rb'' : Ring} {l'' : List ℕ} (ht : rb.Tiled l) (h : Spares rb rb' l l' i)
    (h' : Spares rb' rb'' l' l'' i) : Spares rb rb'' l l'' i where
  tiled := h'.tiled
  size := h'.size.trans h.size
  keeps o ho hu hne := by
    obtain ⟨hmem, hsame⟩ := h.keeps o ho hu hne
    obtain ⟨hu', hid⟩ := ht.used_same ho hsame hu
    obtain ⟨hmem', hsame'⟩ := h'.keeps o hmem hu' (by rw [hid]; exact hne)
    exact ⟨hmem', hsame.trans hsame' (ht.block ho).2.2.2.2.2.1⟩
  owner o ho hu := by
    rcases h'.owner o ho hu with heq | ⟨hmem, hu', hid⟩
    · exact .inl heq
    · rw [hid]
      exact h.owner o hmem hu'

/-- A new block, for whom it may be. -/
theorem Allocated.spares (h : Allocated rb rb' l l' n blk) (ht : rb.Tiled l) (i : ℤ) :
    Spares rb rb' l l' i where
  tiled := h.tiled
  size := h.size
  keeps o ho hu _ := ⟨(h.keeps o ho hu).1, (h.keeps o ho hu).2.2⟩
  owner o ho hu := by
    obtain ⟨hmem, hu'⟩ := h.used o ho hu
    exact .inr ⟨hmem, hu', (ht.used_same hmem (h.keeps o hmem hu').2.2 hu').2⟩

/-- A change of blocks that are `i`'s or nobody's, before and after. -/
theorem Apart.spares (h : Apart rb rb' l c) (ht : rb.Tiled l)
    (hbefore : ∀ x ∈ c, rb.Used x → rb.id x = i) (hafter : ∀ x ∈ c, rb'.Used x → rb'.id x = i) :
    Spares rb rb' l l i where
  tiled := h.tiled
  size := h.size
  keeps o ho hu hne := ⟨ho, h.same o ho fun hm => hne (hbefore o hm hu)⟩
  owner o ho hu := by
    by_cases hm : o ∈ c
    · exact .inl (hafter o hm hu)
    · have hs := h.same o ho hm
      obtain ⟨hpos, -, -, hle, -, hfour, -⟩ := ht.block ho
      have hu' := (hs.used hfour hpos hle).mp hu
      exact .inr ⟨ho, hu', (ht.used_same ho hs hu').2⟩

theorem Tiled.spares_setHead (h : rb.Tiled l) (ho : o ∈ l) (i : ℤ) :
    Spares rb { rb with head := o } l l i where
  tiled := h.setHead ho
  size := rfl
  keeps _ hx _ _ := ⟨hx, .refl _ _⟩
  owner _ hx hu := .inr ⟨hx, hu, rfl⟩

/-- After the blocks of `i` are collected, a block of someone was his before. -/
theorem Collected.used (h : Collected q rb' l i) (hmem : q.mem = rb.mem) (ho : o ∈ l)
    (hu : rb'.Used o) : rb.Used o ∧ rb.id o ≠ i := by
  obtain ⟨hused, hid⟩ := (h.struck o ho).used hu
  unfold Ring.Used Ring.Whole Ring.length Ring.id at hused ⊢
  unfold Ring.id at hid
  rw [hmem] at hused hid
  exact ⟨hused, hid⟩

/-- Collecting the blocks of `i`, wherever it starts, touches those of nobody else. -/
theorem Collected.spares (h : Collected q rb' l i) (ht : rb.Tiled l) (hmem : q.mem = rb.mem)
    (hsize : q.size = rb.size) : Spares rb rb' l l i := by
  have hsame : ∀ o ∈ l, rb.id o ≠ i → SameBlock rb rb' o := by
    intro o ho hne
    have hbefore : SameBlock rb q o := fun k _ _ => by rw [hmem]
    refine hbefore.trans ((h.struck o ho).keeps fun hcond => hne ?_) (ht.block ho).2.2.2.2.2.1
    have hid := hcond.2
    unfold Ring.id at hid ⊢
    rwa [hmem] at hid
  refine ⟨h.tiled, h.size.trans hsize, fun o ho _ hne => ⟨ho, hsame o ho hne⟩, fun o ho hu => ?_⟩
  obtain ⟨hu', hne⟩ := h.used hmem ho hu
  exact .inr ⟨ho, hu', (ht.used_same ho (hsame o ho hne) hu').2⟩

/-- What another owner holds stays. -/
theorem Spares.held (h : Spares rb rb' l l' i) (ht : rb.Tiled l) (hj : 0 ≤ j) (hne : j ≠ i)
    (hheld : Held rb l j node temp c t) :
    Held rb' l' j node temp c t ∧ rb'.stored c = rb.stored c := by
  refine hheld.same ht fun x hx => ?_
  obtain ⟨hmem, hu, hid⟩ := hheld.owned hj hx
  exact h.keeps x hmem hu (by rw [hid]; exact hne)

/-- What anyone holds stays when a block is allocated. -/
theorem Allocated.held (h : Allocated rb rb' l l' n blk) (ht : rb.Tiled l) (hj : 0 ≤ j)
    (hheld : Held rb l j node temp c t) :
    Held rb' l' j node temp c t ∧ rb'.stored c = rb.stored c := by
  refine hheld.same ht fun x hx => ?_
  obtain ⟨hmem, hu, -⟩ := hheld.owned hj hx
  exact ⟨(h.keeps x hmem hu).1, (h.keeps x hmem hu).2.2⟩

/-- A fresh block is in no chain. -/
theorem Fresh.not_held (hf : rb.Fresh n blk) (hi : 0 ≤ i) (h : Held rb l i node temp c t) :
    blk ∉ c ∧ blk ∉ t :=
  ⟨fun hm => not_used hf.id (h.owned hi (.inl hm)).2.1,
    fun hm => not_used hf.id (h.owned hi (.inr hm)).2.1⟩

theorem Fresh.whole (hf : rb.Fresh n blk) (hn : 0 ≤ n) : rb.Whole blk := by
  right
  rw [hf.length]
  omega

theorem Fresh.follow (hf : rb.Fresh n blk) : rb.follow blk = none := by
  unfold Ring.follow
  rw [hf.next]
  rfl

/-! ## Operations of the holder -/

/-- Changing the owner of a block leaves the data of every block. -/
theorem Tiled.setId_fields (h : rb.Tiled l) {x : ℕ} (ho : o ∈ l) (hw : rb.Whole o) (hx : x ∈ l)
    (hxw : rb.Whole x) (v : ℤ) :
    (rb.setId o v).offset x = rb.offset x ∧ (rb.setId o v).length x = rb.length x := by
  by_cases hxo : x = o
  · rw [hxo]
    exact ⟨rb.setId_offset o v, rb.setId_length o v⟩
  · exact h.same_fields hx hxw (h.sameBlock (h.inside_setId ho hw v) ho hx hxo)

theorem Tiled.setNext_fields (h : rb.Tiled l) {x : ℕ} (ho : o ∈ l) (hw : rb.Whole o) (hx : x ∈ l)
    (hxw : rb.Whole x) (v : ℤ) :
    (rb.setNext o v).offset x = rb.offset x ∧ (rb.setNext o v).length x = rb.length x := by
  by_cases hxo : x = o
  · rw [hxo]
    exact ⟨Memory.getInt_putInt_of_disjoint (by omega), rb.setNext_length o v⟩
  · exact h.same_fields hx hxw (h.sameBlock (h.inside_setNext ho hw v) ho hx hxo)

/-- Linking leaves the data of every block. -/
theorem Tiled.link_fields (h : rb.Tiled l) (hc : Chain rb i (some o) c) (hsub : ∀ x ∈ c, x ∈ l)
    (hblk : blk ∈ l) (hw : rb.Whole blk) (hl : rb.ringbuffer_link o blk = some rb') {x : ℕ}
    (hx : x ∈ l) (hxw : rb.Whole x) : rb'.offset x = rb.offset x ∧ rb'.length x = rb.length x := by
  obtain ⟨b, hlast, rfl⟩ := Option.map_eq_some_iff.mp hl
  obtain ⟨d, rfl⟩ := hc.last_spec hlast
  have hb : b ∈ l := hsub b (by simp)
  have hq := h.inside (h.inside_setId hblk hw (rb.id b)) hblk
  have hwhole : ∀ y ∈ l, rb.Whole y → (rb.setId blk (rb.id b)).Whole y := by
    intro y hy hyw
    unfold Whole at hyw ⊢
    rwa [(h.setId_fields hblk hw hy hyw _).2]
  obtain ⟨hoff, hlen⟩ := h.setId_fields hblk hw hx hxw (rb.id b)
  obtain ⟨hoff', hlen'⟩ := hq.setNext_fields hb (hwhole b hb (hc.mem (by simp)).1) hx
    (hwhole x hx hxw) blk
  exact ⟨hoff'.trans hoff, hlen'.trans hlen⟩

/-- The block that a socket without one reads into. -/
theorem Held.first (h : Held rb l i none temp c t) (ht : rb.Tiled l) (hi : 0 ≤ i)
    (hint : Memory.IsInt i) (hblk : blk ∈ l) (hf : rb.Fresh n blk) (hn : 0 < n) :
    Spares rb (rb.setId blk i) l l i ∧ Held (rb.setId blk i) l i (some blk) temp [blk] t ∧
      (rb.setId blk i).stored [blk] = rb.stored c + n ∧
      Tracks rb (rb.setId blk i) l i c t [blk] t := by
  obtain ⟨-, hnot⟩ := hf.not_held hi h
  have hw := hf.whole hn.le
  have hap := ht.apart_inside hblk (ht.inside_setId hblk hw i)
  have hid := rb.setId_id blk hint
  obtain ⟨hoff, hlen⟩ := ht.setId_fields hblk hw hblk hw i
  rw [hf.offset] at hoff
  rw [hf.length] at hlen
  have hnil : c = [] := by
    cases h.chain
    rfl
  refine ⟨hap.spares ht (fun x hx hu => ?_) fun x hx _ => ?_,
    ⟨?_, ?_, ?_, h.copies_sub, ?_, ?_⟩, ?_,
    hap.tracks ht (fun x hx _ => .inl hx) fun x hx _ => ?_⟩
  · rw [List.mem_singleton.mp hx] at hu
    exact absurd hu (not_used hf.id)
  · rw [List.mem_singleton.mp hx]
    exact hid
  · refine .cons ((rb.setId_whole blk i).mpr hw) hid ?_
    rw [setId_follow, hf.follow]
    exact .nil
  · exact h.copies.apart ht h.copies_sub hap fun x hx hm => hnot (List.mem_singleton.mp hm ▸ hx)
  · intro x hx
    rw [List.mem_singleton.mp hx]
    exact hblk
  · intro x hx
    rw [List.mem_singleton.mp hx]
    exact hnot
  · refine ⟨⟨hoff.ge, ?_⟩, by simp⟩
    rw [hoff, hlen]
    omega
  · rw [hnil, stored_cons, stored_nil, stored_nil, hoff, hlen]
    ring
  · rw [hnil] at hx
    exact .inr (hx.resolve_left List.not_mem_nil)

/-- The next block that a socket reads into. -/
theorem Held.append (h : Held rb l i (some o) temp c t) (ht : rb.Tiled l) (hi : 0 ≤ i)
    (hint : Memory.IsInt i) (hblk : blk ∈ l) (hf : rb.Fresh n blk) (hn : 0 < n)
    (hl : rb.ringbuffer_link o blk = some rb') :
    Spares rb rb' l l i ∧ Held rb' l i (some o) temp (c ++ [blk]) t ∧
      rb'.stored (c ++ [blk]) = rb.stored c + n ∧ Tracks rb rb' l i c t (c ++ [blk]) t := by
  obtain ⟨hnot, hnot'⟩ := hf.not_held hi h
  have hw := hf.whole hn.le
  have hnil : Chain rb i (rb.follow blk) [] := by
    rw [hf.follow]
    exact .nil
  have hnodup : (c ++ [blk]).Nodup := by
    rw [← List.concat_eq_append, List.nodup_concat]
    exact ⟨hnot, h.chain.nodup⟩
  obtain ⟨hap, hchain⟩ := ht.link_spec h.chain h.sub hblk hw hnil (by simp) hnodup hint hl
  have hfields : ∀ x ∈ c ++ [blk], rb'.offset x = rb.offset x ∧ rb'.length x = rb.length x := by
    intro x hx
    rcases List.mem_append.mp hx with hx | hx
    · exact ht.link_fields h.chain h.sub hblk hw hl (h.sub x hx) (h.chain.mem hx).1
    · rw [List.mem_singleton.mp hx]
      exact ht.link_fields h.chain h.sub hblk hw hl hblk hw
  have hmem : ∀ x ∈ c ++ [blk], x ∈ c ∨ x = blk := fun x hx =>
    (List.mem_append.mp hx).imp_right List.mem_singleton.mp
  have hfilled : rb.Filled (c ++ [blk]) := by
    obtain ⟨c', rfl⟩ : ∃ c', c = o :: c' := by
      cases h.chain with
      | cons _ _ _ => exact ⟨_, rfl⟩
    refine ⟨h.filled.1, fun x hx => ?_⟩
    rcases List.mem_append.mp hx with hx | hx
    · exact h.filled.2 x hx
    · rw [List.mem_singleton.mp hx, hf.length]
      exact ⟨hf.offset, by omega⟩
  refine ⟨hap.spares ht (fun x hx hu => ?_) fun x hx _ => (hchain.mem hx).2,
    ⟨hchain, ?_, fun x hx => ?_, h.copies_sub, fun x hx => ?_, hfilled.congr hfields⟩, ?_,
    hap.tracks ht (fun x hx _ => .inl hx) fun x hx _ => hx.imp_left (List.mem_append_left _)⟩
  · rcases hmem x hx with hx | rfl
    · exact (h.chain.mem hx).2
    · exact absurd hu (not_used hf.id)
  · refine h.copies.apart ht h.copies_sub hap fun x hx hm => ?_
    rcases hmem x hm with hm | rfl
    · exact h.apart x hm hx
    · exact hnot' hx
  · rcases hmem x hx with hx | rfl
    · exact h.sub x hx
    · exact hblk
  · rcases hmem x hx with hx | rfl
    · exact h.apart x hx
    · exact hnot'
  · rw [stored_congr hfields, stored_append, stored_cons, stored_nil, hf.length, hf.offset]
    ring

/-- The block that is copied to comes to be the owner's and the first of the copies. -/
theorem Held.made {q : Ring}
    (hl : (match temp with
      | some old => (rb.setId blk i).ringbuffer_link blk old
      | none => some (rb.setId blk i)) = some q)
    (h : Held rb l i node temp c t) (ht : rb.Tiled l) (hi : 0 ≤ i) (hint : Memory.IsInt i)
    (hblk : blk ∈ l) (hf : rb.Fresh n blk) (hn : 0 ≤ n) :
    Apart rb q l (blk :: t) ∧ Chain q i (some blk) (blk :: t) ∧ q.length blk = sizeofBlock + n := by
  obtain ⟨-, hnot'⟩ := hf.not_held hi h
  have hw := hf.whole hn
  have hap := ht.apart_inside hblk (ht.inside_setId hblk hw i)
  have hw' := (rb.setId_whole blk i).mpr hw
  have hlen := (rb.setId_length blk i).trans hf.length
  have hone : Chain (rb.setId blk i) i (some blk) [blk] := by
    refine .cons hw' (rb.setId_id blk hint) ?_
    rw [setId_follow, hf.follow]
    exact .nil
  have hcopies := h.copies.apart ht h.copies_sub hap fun x hx hm =>
    hnot' (List.mem_singleton.mp hm ▸ hx)
  cases temp with
  | none =>
    obtain rfl := Option.some.inj hl
    cases h.copies
    exact ⟨hap, hone, hlen⟩
  | some old =>
    obtain ⟨t', rfl⟩ : ∃ t', t = old :: t' := by
      cases h.copies with
      | cons _ _ _ => exact ⟨_, rfl⟩
    cases hcopies with
    | cons how hoid hrest =>
      have hold := h.copies_sub old List.mem_cons_self
      obtain ⟨hap', hchain⟩ := hap.tiled.link_spec hone (by simpa using hblk) hold how hrest
        (fun x hx => h.copies_sub x (List.mem_cons_of_mem _ hx))
        (List.nodup_cons.mpr ⟨hnot', h.copies.nodup⟩) hint hl
      have hfields := hap.tiled.link_fields hone (by simpa using hblk) hold how hl hblk hw'
      exact ⟨(hap.mono (by simp)).trans ht (hap'.mono (by simp)), hchain, hfields.2.trans hlen⟩

/-- The block that a piece of the chain is copied to. -/
theorem Held.copied {q : Ring}
    (hl : (match temp with
      | some old => (rb.setId blk i).ringbuffer_link blk old
      | none => some (rb.setId blk i)) = some q)
    (hcopy : q.ringbuffer_copy o skip blk = some rb') (h : Held rb l i (some o) temp c t)
    (ht : rb.Tiled l) (hi : 0 ≤ i) (hint : Memory.IsInt i) (hblk : blk ∈ l) (hf : rb.Fresh n blk)
    (hn : 0 ≤ n) :
    Spares rb rb' l l i ∧ Held rb' l i (some o) (some blk) c (blk :: t) ∧
      rb'.stored c = rb.stored c ∧ Tracks rb rb' l i c t c (blk :: t) := by
  obtain ⟨hnot, hnot'⟩ := hf.not_held hi h
  obtain ⟨hboth, hchain, -⟩ := h.made hl ht hi hint hblk hf hn
  have hdisj : ∀ x ∈ c, x ∉ blk :: t := by
    intro x hx hm
    rcases List.mem_cons.mp hm with rfl | hm
    · exact hnot hx
    · exact h.apart x hx hm
  -- the data goes into it
  have hqw : q.Whole blk := (hchain.mem List.mem_cons_self).1
  have hdata := h.chain.apart ht h.sub hboth hdisj
  have hcopied := hboth.tiled.copy_spec hblk hqw hdata h.sub hnot hint hcopy
  have hap'' := hboth.tiled.apart_inside hblk hcopied.inside
  have hcopies' : Chain rb' i (some blk) (blk :: t) := by
    cases hchain with
    | cons hw' hid hrest =>
      refine .cons ?_ hcopied.id ?_
      · unfold Whole at hw' ⊢
        rwa [hcopied.inside.length]
      · have hfollow : rb'.follow blk = q.follow blk := by
          unfold Ring.follow
          rw [hcopied.next]
        rw [hfollow]
        exact hrest.apart hboth.tiled h.copies_sub hap'' fun x hx hm =>
          hnot' (List.mem_singleton.mp hm ▸ hx)
  have hall : Apart rb rb' l (blk :: t) := hboth.trans ht (hap''.mono (by simp))
  have hfields := h.chain.fields ht h.sub hall hdisj
  refine ⟨hall.spares ht (fun x hx hu => ?_) fun x hx _ => (hcopies'.mem hx).2,
    ⟨h.chain.apart ht h.sub hall hdisj, hcopies', h.sub, fun x hx => ?_, hdisj,
      h.filled.congr hfields⟩, stored_congr hfields,
    hall.tracks ht (fun x hx _ => .inr hx) fun x hx _ => hx.imp_right (List.mem_cons_of_mem _)⟩
  · rcases List.mem_cons.mp hx with rfl | hx
    · exact absurd hu (not_used hf.id)
    · exact (h.copies.mem hx).2
  · rcases List.mem_cons.mp hx with rfl | hx
    · exact hblk
    · exact h.copies_sub x hx

/-- The copies can be given up. -/
theorem Held.free_copies (h : Held rb l i node temp c t) (ht : rb.Tiled l) (hi : 0 ≤ i) :
    ∃ rb', rb.ringbuffer_free temp = some rb' ∧ Spares rb rb' l l i ∧
      Held rb' l i node none c [] ∧ rb'.stored c = rb.stored c ∧ Tracks rb rb' l i c t c [] := by
  obtain ⟨rb', hf, hap, hfree⟩ := ht.free_spec h.copies hi h.copies_sub
  have hfields := h.chain.fields ht h.sub hap h.apart
  exact ⟨rb', hf, hap.spares ht (fun x hx _ => (h.copies.mem hx).2)
      fun x hx hu => absurd hu (hfree x hx),
    ⟨h.chain.apart ht h.sub hap h.apart, .nil, h.sub, by simp, by simp, h.filled.congr hfields⟩,
    stored_congr hfields, hap.tracks ht (fun x hx hu => absurd hu (hfree x hx))
      fun x hx hn => .inl (hx.resolve_right hn)⟩

/-- The chain can be given up. -/
theorem Held.free_chain (h : Held rb l i node temp c t) (ht : rb.Tiled l) (hi : 0 ≤ i) :
    ∃ rb', rb.ringbuffer_free node = some rb' ∧ Spares rb rb' l l i ∧
      Tracks rb rb' l i c t [] t := by
  obtain ⟨rb', hf, hap, hfree⟩ := ht.free_spec h.chain hi h.sub
  exact ⟨rb', hf, hap.spares ht (fun x hx _ => (h.chain.mem hx).2)
    fun x hx hu => absurd hu (hfree x hx), hap.tracks ht (fun x hx hu => absurd hu (hfree x hx))
      fun x hx hn => .inr (hx.resolve_left hn)⟩

/-- What was skipped can be yielded. -/
theorem Held.yielded (h : Held rb l i (some o) none c []) (ht : rb.Tiled l) (hskip : 0 ≤ skip) :
    ∃ rb' r c', rb.ringbuffer_yield o skip = some (rb', r) ∧ Spares rb rb' l l i ∧
      Held rb' l i r none c' [] ∧ Tracks rb rb' l i c [] c' [] := by
  obtain ⟨rb', r, c', hy, hleft⟩ := ht.yield_spec h.chain h.sub h.filled hskip
  refine ⟨rb', r, c', hy, hleft.apart.spares ht (fun x hx _ => (h.chain.mem hx).2)
    fun x hx hu => ?_, ⟨hleft.chain, .nil, fun x hx => h.sub x (hleft.suffix.subset hx), by simp,
    by simp, hleft.filled⟩, hleft.apart.tracks ht (fun x hx hu => .inl ?_)
      fun x hx hn => absurd (hx.resolve_right List.not_mem_nil) hn⟩
  · by_cases hm : x ∈ c'
    · exact (hleft.chain.mem hm).2
    · exact absurd hu (hleft.freed x hx hm)
  · by_contra hm
    exact hleft.freed x hx hm hu

end Ring

end DnServer.Gate
