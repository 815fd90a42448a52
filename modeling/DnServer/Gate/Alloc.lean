import DnServer.Gate.Tiled

/-!
# Allocation, collection and shrinking

A block that is allocated comes from a stretch of blocks nobody uses; what is
left of the stretch behind it becomes a free block, with a header if there is
room for one. Collection takes the blocks of one owner away, and shrinking gives
back the end of the block that was just allocated.
-/

namespace DnServer.Gate

open DnServer.Lib

namespace Ring

variable {rb rb' : Ring} {l l' : List ℕ} {a b o o' blk : ℕ} {n : ℤ}

theorem not_used (h : rb.id o = -1) : ¬ rb.Used o := by
  rintro ⟨-, hu⟩
  rw [h] at hu
  exact absurd hu (by decide)

/-! ## The search for free space -/

/-- The search ends behind a stretch that nobody uses and that is long enough. -/
theorem Tiled.search_found (h : rb.Tiled l) {need f : ℤ} {start fuel : ℕ} {seg : List ℕ}
    (hblk : blk ∈ l) (hseg : Tiles rb.span start blk seg) (hfree : ∀ o ∈ seg, ¬ rb.Used o)
    (hf : rb.search need fuel blk (blk - start) = some (.found f)) :
    ∃ seg e, Tiles rb.span start e seg ∧ (∀ o ∈ seg, ¬ rb.Used o) ∧ f = e - start ∧ need ≤ f ∧
      (e = rb.size ∨ e ∈ l) := by
  induction fuel generalizing blk seg with
  | zero => cases hf
  | succ fuel ih =>
    obtain ⟨-, hspan, -, -, -, hfour, -⟩ := h.block hblk
    rw [Ring.search] at hf
    by_cases hu : rb.Used blk
    · rw [if_pos hu] at hf
      cases hf
    · -- the block joins the stretch
      have hlong : Tiles rb.span start (blk + rb.span blk) (seg ++ [blk]) :=
        hseg.append (.single rb.span (by omega))
      have hfree' : ∀ o ∈ seg ++ [blk], ¬ rb.Used o := by
        intro o ho
        rcases List.mem_append.mp ho with ho | ho
        · exact hfree o ho
        · rw [List.mem_singleton.mp ho]
          exact hu
      have hsum : (blk : ℤ) - start + ALIGN (rb.length blk) = (blk + rb.span blk : ℕ) - start := by
        rw [← hspan]
        push_cast
        ring
      rw [if_neg hu, hsum] at hf
      dsimp only at hf
      by_cases hneed : need ≤ ((blk + rb.span blk : ℕ) : ℤ) - start
      · rw [if_pos hneed] at hf
        obtain rfl := Search.found.inj (Option.some.inj hf)
        exact ⟨_, _, hlong, hfree', rfl, hneed, h.tiles.next hblk⟩
      · rw [if_neg hneed] at hf
        rcases h.block_next_cases hblk with ⟨hnext, -⟩ | ⟨hnext, hm⟩
        · rw [hnext] at hf
          cases hf
        · rw [hnext, Option.bind_some] at hf
          exact ih hm hlong hfree' hf

/-! ## Allocation -/

/-- A block for `n` bytes that nobody uses yet. -/
structure Fresh (rb : Ring) (n : ℤ) (blk : ℕ) : Prop where
  length : rb.length blk = sizeofBlock + n
  offset : rb.offset blk = 0
  id : rb.id blk = -1
  next : rb.next blk = -1

/-- What allocation of `n` bytes at `blk` makes of the ring. -/
structure Allocated (rb rb' : Ring) (l l' : List ℕ) (n : ℤ) (blk : ℕ) : Prop where
  tiled : rb'.Tiled l'
  size : rb'.size = rb.size
  mem : blk ∈ l'
  fresh : rb'.Fresh n blk
  /-- Blocks of someone are where they were. -/
  keeps : ∀ o ∈ l, rb.Used o → o ∈ l' ∧ o ≠ blk ∧ SameBlock rb rb' o
  /-- No other block comes to be someone's. -/
  used : ∀ o ∈ l', rb'.Used o → o ∈ l ∧ rb.Used o

/-- `_alloc`'s header. -/
def opened (rb : Ring) (blk : ℕ) (n : ℤ) : Ring :=
  (((rb.setLength blk (sizeofBlock + n)).setOffset blk 0).setNext blk (-1)).setId blk (-1)

theorem opened_fresh (rb : Ring) (blk : ℕ) (hn : Memory.IsInt (sizeofBlock + n)) :
    (rb.opened blk n).Fresh n blk := by
  have hminus : Memory.IsInt (-1) := by unfold Memory.IsInt; omega
  have hzero : Memory.IsInt 0 := by unfold Memory.IsInt; omega
  refine ⟨?_, ?_, Memory.getInt_putInt _ _ hminus, ?_⟩ <;>
    unfold opened setLength setOffset setNext setId
  · unfold Ring.length
    rw [Memory.getInt_putInt_of_disjoint (by omega), Memory.getInt_putInt_of_disjoint (by omega),
      Memory.getInt_putInt_of_disjoint (by omega), Memory.getInt_putInt _ _ hn]
  · unfold Ring.offset
    rw [Memory.getInt_putInt_of_disjoint (by omega), Memory.getInt_putInt_of_disjoint (by omega),
      Memory.getInt_putInt _ _ hzero]
  · unfold Ring.next
    rw [Memory.getInt_putInt_of_disjoint (by omega), Memory.getInt_putInt _ _ hminus]

theorem opened_outside (rb : Ring) (blk : ℕ) (n : ℤ) :
    SameOutside rb (rb.opened blk n) blk (blk + 16) := by
  have h1 := sameOutside_putInt rb (a := blk) (b := blk + 16) (c := blk) (sizeofBlock + n)
    (by omega) (by omega)
  have h2 := sameOutside_putInt (rb.setLength blk (sizeofBlock + n)) (a := blk) (b := blk + 16)
    (c := blk + 4) 0 (by omega) (by omega)
  have h3 := sameOutside_putInt ((rb.setLength blk (sizeofBlock + n)).setOffset blk 0) (a := blk)
    (b := blk + 16) (c := blk + 12) (-1) (by omega) (by omega)
  have h4 := sameOutside_putInt (((rb.setLength blk (sizeofBlock + n)).setOffset blk 0).setNext blk
    (-1)) (a := blk) (b := blk + 16) (c := blk + 8) (-1) (by omega) (by omega)
  exact ((h1.trans h2).trans h3).trans h4

/-- `_alloc`'s remainder: a free block of what is left of the stretch. -/
def leave (rb : Ring) (next : ℕ) (rest : ℤ) : Ring :=
  let rb := rb.setLength next rest
  if rb.Whole next then rb.setId next (-1) else rb

theorem leave_outside (rb : Ring) {next : ℕ} {rest : ℤ} (hr : 4 ≤ rest) (hi : Memory.IsInt rest) :
    SameOutside rb (rb.leave next rest) next (next + rest.toNat) := by
  have h1 : SameOutside rb (rb.setLength next rest) next (next + rest.toNat) :=
    sameOutside_putInt rb rest le_rfl (by omega)
  unfold leave
  dsimp only
  by_cases hw : (rb.setLength next rest).Whole next
  · rw [if_pos hw]
    have hlen : (rb.setLength next rest).length next = rest := Memory.getInt_putInt _ _ hi
    have h16 : 16 ≤ rest := by
      have := (whole_iff (by rw [hlen]; omega)).mp hw
      rwa [hlen] at this
    exact h1.trans (sameOutside_putInt _ (-1) (by omega) (by omega))
  · rw [if_neg hw]
    exact h1

theorem leave_spec (rb : Ring) (next : ℕ) {rest : ℤ} (hi : Memory.IsInt rest) :
    (rb.leave next rest).length next = rest ∧ ¬ (rb.leave next rest).Used next := by
  have hlen : (rb.setLength next rest).length next = rest := Memory.getInt_putInt _ _ hi
  have hminus : Memory.IsInt (-1) := by unfold Memory.IsInt; omega
  unfold leave
  dsimp only
  by_cases hw : (rb.setLength next rest).Whole next
  · rw [if_pos hw]
    have hkept : ((rb.setLength next rest).setId next (-1)).length next =
        (rb.setLength next rest).length next := Memory.getInt_putInt_of_disjoint (by omega)
    have hid : ((rb.setLength next rest).setId next (-1)).id next = -1 :=
      Memory.getInt_putInt _ _ hminus
    exact ⟨hkept.trans hlen, not_used hid⟩
  · rw [if_neg hw]
    exact ⟨hlen, fun hu => hw hu.1⟩

theorem leave_cases (rb : Ring) (next : ℕ) (rest : ℤ) :
    rb.leave next rest = rb.setLength next rest ∨
      rb.leave next rest = (rb.setLength next rest).setId next (-1) := by
  unfold leave
  dsimp only
  by_cases hw : (rb.setLength next rest).Whole next
  · rw [if_pos hw]
    exact .inr rfl
  · rw [if_neg hw]
    exact .inl rfl

theorem leave_frame (rb : Ring) (next : ℕ) (rest : ℤ) :
    (rb.leave next rest).head = rb.head ∧ (rb.leave next rest).size = rb.size := by
  rcases rb.leave_cases next rest with h | h
  · rw [h]
    simp
  · rw [h]
    simp

/-- How `_alloc` ends. -/
theorem alloc_cases {total : ℤ} (h : rb.alloc total n = some (rb', blk)) :
    blk = rb.head ∧
      (((rb.opened rb.head n).block_next rb.head = some none ∧
          rb' = { rb.opened rb.head n with head := 0 }) ∨
        ∃ next, (rb.opened rb.head n).block_next rb.head = some (some next) ∧
          ((alignLength n < total ∧
              rb' = ({ rb.opened rb.head n with head := next } : Ring).leave next
                (total - alignLength n)) ∨
            (total ≤ alignLength n ∧ rb' = { rb.opened rb.head n with head := next }))) := by
  unfold alloc at h
  obtain ⟨x, hx, heq⟩ := Option.map_eq_some_iff.mp h
  cases x with
  | none =>
    obtain ⟨rfl, rfl⟩ := Prod.mk.inj heq
    exact ⟨rfl, .inl ⟨hx, rfl⟩⟩
  | some next =>
    dsimp only at heq
    by_cases hlt : alignLength n < total
    · rw [if_pos hlt] at heq
      obtain ⟨rfl, rfl⟩ := Prod.mk.inj heq
      exact ⟨rfl, .inr ⟨next, hx, .inl ⟨hlt, rfl⟩⟩⟩
    · rw [if_neg hlt] at heq
      obtain ⟨rfl, rfl⟩ := Prod.mk.inj heq
      exact ⟨rfl, .inr ⟨next, hx, .inr ⟨by omega, rfl⟩⟩⟩

theorem mem_stretch {l₁ m l₂ : List ℕ} : o ∈ l₁ ++ m ++ l₂ ↔ (o ∈ l₁ ∨ o ∈ l₂) ∨ o ∈ m := by
  simp only [List.mem_append]
  tauto

/-- What is needed of the carved stretch. -/
theorem Tiled.carved {e : ℕ} {l₁ seg l₂ seg' : List ℕ} (h : rb.Tiled (l₁ ++ seg ++ l₂))
    (h₁ : Tiles rb.span 0 blk l₁) (h₂ : Tiles rb.span e rb.size l₂) (hlt : blk < e)
    (hfree : ∀ o ∈ seg, ¬ rb.Used o) (hsame : SameOutside rb rb' blk e)
    (hseg' : Tiles rb'.span blk e seg') (hhead : rb'.head ∈ l₁ ++ seg' ++ l₂)
    (hfree' : ∀ o ∈ seg', ¬ rb'.Used o) (hfresh : rb'.Fresh n blk) :
    Allocated rb rb' (l₁ ++ seg ++ l₂) (l₁ ++ seg' ++ l₂) n blk := by
  -- the blocks on either side are the same
  have hside : ∀ o, o ∈ l₁ ∨ o ∈ l₂ → o ≠ blk ∧ SameBlock rb rb' o := by
    rintro o (ho | ho)
    · have := h₁.bounds ho
      exact ⟨by omega, fun i _ _ => hsame.mem i (by omega)⟩
    · have := h₂.bounds ho
      exact ⟨by omega, fun i _ _ => hsame.mem i (by omega)⟩
  refine ⟨h.exchange h₁ h₂ hsame hseg' hhead, hsame.size, ?_, hfresh, ?_, ?_⟩
  · have := hseg'.first_mem hlt
    simp [this]
  · intro o ho hu
    have hs := (mem_stretch.mp ho).resolve_right fun hm => hfree o hm hu
    exact ⟨mem_stretch.mpr (.inl hs), hside o hs⟩
  · intro o ho hu
    have hs := (mem_stretch.mp ho).resolve_right fun hm => hfree' o hm hu
    have hol : o ∈ l₁ ++ seg ++ l₂ := mem_stretch.mpr (.inl hs)
    obtain ⟨hpos, -, -, hle, -, hfour, -⟩ := h.block hol
    exact ⟨hol, ((hside o hs).2.used hfour hpos hle).mp hu⟩

/-- Carving a block out of a stretch that nobody uses. -/
theorem Tiled.carve (h : rb.Tiled l) {e : ℕ} {seg : List ℕ} (hn : 0 ≤ n)
    (hseg : Tiles rb.span rb.head e seg) (hfree : ∀ o ∈ seg, ¬ rb.Used o)
    (hneed : ALIGN (sizeofBlock + n) ≤ e - rb.head) (he : e = rb.size ∨ e ∈ l)
    (halloc : rb.alloc (e - rb.head) n = some (rb', blk)) :
    ∃ l', Allocated rb rb' l l' n blk := by
  obtain ⟨l₁, l₂, rfl, h₁, h₂⟩ := h.tiles.stretch h.head hseg he
  have hesize := h₂.le
  have hbounded := h.bounded
  have hroom := h.room
  obtain ⟨hA, hA', hA4⟩ := align_spec (sizeofBlock + n)
  have hint : Memory.IsInt (sizeofBlock + n) := by
    unfold Memory.IsInt
    unfold sizeofBlock at *
    omega
  have hAl : alignLength n = ALIGN (sizeofBlock + n) :=
    alignLength_eq hn (by unfold sizeofBlock at *; omega)
  generalize hAn : ALIGN (sizeofBlock + n) = A at *
  have hA16 : 16 ≤ A := by
    unfold sizeofBlock at *
    omega
  have hfresh := rb.opened_fresh rb.head hint
  have houtside := (rb.opened_outside rb.head n).mono le_rfl (show rb.head + 16 ≤ e by omega)
  have hstep : (rb.opened rb.head n).block_next rb.head =
      if rb.head + A = rb.size then some none
      else if 0 ≤ rb.head + A ∧ rb.head + A < rb.size then some (some (rb.head + A).toNat) else none := by
    unfold Ring.block_next
    rw [hfresh.length, hAn, houtside.size]
  -- a block that ends where the stretch does
  have hexact : ∀ q : Ring, SameOutside rb q rb.head e → q.Fresh n rb.head → A = e - rb.head →
      q.head ∈ l₁ ++ [rb.head] ++ l₂ →
      Allocated rb q (l₁ ++ seg ++ l₂) (l₁ ++ [rb.head] ++ l₂) n rb.head := by
    intro q hsame hq hAe hqh
    have hspan : q.span rb.head = e - rb.head := by
      unfold Ring.span
      rw [hq.length, hAn]
      omega
    have htile := Tiles.single (a := rb.head) q.span (by omega)
    rw [hspan, show rb.head + (e - rb.head) = e by omega] at htile
    refine h.carved h₁ h₂ (by omega) hfree hsame htile hqh ?_ hq
    intro o hmem
    rw [List.mem_singleton.mp hmem]
    exact not_used hq.id
  have hblk : rb.head ∈ l₁ ++ [rb.head] ++ l₂ := mem_stretch.mpr (.inr (List.mem_singleton.mpr rfl))
  obtain ⟨rfl, ⟨hlast, rfl⟩ | ⟨next, hblknext, hcases⟩⟩ := alloc_cases halloc
  · -- the block ends with the ring
    rw [hstep] at hlast
    have hend : rb.head + A = rb.size := by
      by_contra hne
      rw [if_neg hne] at hlast
      split at hlast <;> cases hlast
    have hzero : 0 ∈ l₁ ++ [rb.head] ++ l₂ := by
      rcases Nat.eq_zero_or_pos rb.head with h0 | hpos
      · rw [← h0]
        exact hblk
      · exact mem_stretch.mpr (.inl (.inl (h₁.first_mem hpos)))
    exact ⟨_, hexact _ ⟨houtside.size, houtside.mem⟩
      ⟨hfresh.length, hfresh.offset, hfresh.id, hfresh.next⟩ (by omega) hzero⟩
  · have hnextA : (next : ℤ) = rb.head + A ∧ (next : ℤ) < rb.size := by
      rw [hstep] at hblknext
      by_cases he : rb.head + A = rb.size
      · rw [if_pos he] at hblknext
        cases hblknext
      · rw [if_neg he] at hblknext
        by_cases hr : 0 ≤ rb.head + A ∧ rb.head + A < rb.size
        · rw [if_pos hr] at hblknext
          have := Option.some.inj (Option.some.inj hblknext)
          omega
        · rw [if_neg hr] at hblknext
          cases hblknext
    rw [hAl] at hcases
    rcases hcases with ⟨hrest, rfl⟩ | ⟨hrest, rfl⟩
    · -- a block is left behind it
      have hfour : 4 ∣ e - rb.head := by
        apply hseg.dvd
        intro o ho
        exact Nat.dvd_of_mod_eq_zero (h.block (mem_stretch.mpr (.inr ho))).2.2.1
      generalize hr : (e : ℤ) - rb.head - A = rest
      have hrest4 : rest % 4 = 0 ∧ 4 ≤ rest := by omega
      have hrint : Memory.IsInt rest := by
        unfold Memory.IsInt
        omega
      generalize hq : ({ rb.opened rb.head n with head := next } : Ring) = q
      have hq' : ∀ a b, SameOutside (rb.opened rb.head n) q a b := by
        intro a b
        rw [← hq]
        exact ⟨rfl, fun _ _ => rfl⟩
      have hleave := (hq' next (next + rest.toNat)).trans (q.leave_outside hrest4.2 hrint)
      obtain ⟨hrlen, hrfree⟩ := q.leave_spec next hrint
      have hrhead : (q.leave next rest).head = next := by
        rw [(q.leave_frame next rest).1, ← hq]
      have hsame : SameOutside rb (q.leave next rest) rb.head e :=
        houtside.trans (hleave.mono (by omega) (by omega))
      -- the header of the block is in front of what is left
      have hfresh' : (q.leave next rest).Fresh n rb.head :=
        ⟨(hleave.field (by omega)).trans hfresh.length, (hleave.field (by omega)).trans hfresh.offset,
          (hleave.field (by omega)).trans hfresh.id, (hleave.field (by omega)).trans hfresh.next⟩
      have hspan : (q.leave next rest).span rb.head = A.toNat := by
        unfold Ring.span
        rw [hfresh'.length, hAn]
      have hspan' : (q.leave next rest).span next = rest.toNat := by
        unfold Ring.span
        rw [hrlen, align_eq hrest4.1]
      have hlast : Tiles (q.leave next rest).span next e [next] := by
        have hsingle := Tiles.single (a := next) (q.leave next rest).span (by omega)
        rwa [hspan', show next + rest.toNat = e by omega] at hsingle
      have htiles : Tiles (q.leave next rest).span rb.head e [rb.head, next] := by
        refine .cons (by omega) ?_
        rwa [hspan, show rb.head + A.toNat = next by omega]
      refine ⟨_, h.carved h₁ h₂ (by omega) hfree hsame htiles ?_ ?_ hfresh'⟩
      · rw [hrhead]
        exact mem_stretch.mpr (.inr (by simp))
      · intro o ho
        rcases List.mem_cons.mp ho with rfl | ho
        · exact not_used hfresh'.id
        · rw [List.mem_singleton.mp ho]
          exact hrfree
    · -- the next block begins there
      have hAe : A = e - rb.head := by omega
      obtain rfl : next = e := by omega
      have hnext' : next ∈ l₁ ++ [rb.head] ++ l₂ :=
        mem_stretch.mpr (.inl (.inr (h₂.first_mem (by omega))))
      exact ⟨_, hexact _ ⟨houtside.size, houtside.mem⟩
        ⟨hfresh.length, hfresh.offset, hfresh.id, hfresh.next⟩ hAe hnext'⟩

theorem Tiled.alloc_spec (h : rb.Tiled l) {r : Option ℕ} (hn : 0 ≤ n) (hle : n ≤ 2147483628)
    (halloc : rb.ringbuffer_alloc n = some (rb', r)) :
    (r = none ∧ rb'.Tiled l ∧ rb'.mem = rb.mem ∧ rb'.size = rb.size) ∨
      ∃ blk l', r = some blk ∧ Allocated rb rb' l l' n blk := by
  have hsearch : ∀ (q : Ring) (f : ℤ), q.Tiled l → q.search (alignLength n) q.size q.head 0 =
      some (.found f) → ∀ rb' blk, q.alloc f n = some (rb', blk) →
        ∃ l', Allocated q rb' l l' n blk := by
    intro q f hq hf rb' blk halloc
    have hzero : (q.head : ℤ) - q.head = 0 := by ring
    rw [← hzero, alignLength_eq hn hle] at hf
    obtain ⟨seg, e, hseg, hfree, rfl, hneed, he⟩ :=
      hq.search_found hq.head (.nil _) (by simp) hf
    exact hq.carve hn hseg hfree hneed he halloc
  have hzero : ({ rb with head := 0 } : Ring).Tiled l := h.setHead h.zero_mem
  unfold ringbuffer_alloc at halloc
  obtain ⟨s, hs, halloc⟩ := Option.bind_eq_some_iff.mp halloc
  cases s with
  | refused =>
    obtain ⟨rfl, rfl⟩ := Prod.mk.inj (Option.some.inj halloc)
    exact .inl ⟨rfl, h, rfl, rfl⟩
  | found f =>
    obtain ⟨⟨q, b⟩, hq, heq⟩ := Option.map_eq_some_iff.mp halloc
    obtain ⟨rfl, rfl⟩ := Prod.mk.inj heq
    obtain ⟨l', hl'⟩ := hsearch rb f h hs q b hq
    exact .inr ⟨b, l', rfl, hl'⟩
  | ended =>
    obtain ⟨s, hs, halloc⟩ := Option.bind_eq_some_iff.mp halloc
    cases s with
    | refused =>
      obtain ⟨rfl, rfl⟩ := Prod.mk.inj (Option.some.inj halloc)
      exact .inl ⟨rfl, hzero, rfl, rfl⟩
    | found f =>
      obtain ⟨⟨q, b⟩, hq, heq⟩ := Option.map_eq_some_iff.mp halloc
      obtain ⟨rfl, rfl⟩ := Prod.mk.inj heq
      obtain ⟨l', hl'⟩ := hsearch _ f hzero hs q b hq
      exact .inr ⟨b, l', rfl, hl'.tiled, hl'.size, hl'.mem, hl'.fresh, hl'.keeps, hl'.used⟩
    | ended =>
      obtain ⟨rfl, rfl⟩ := Prod.mk.inj (Option.some.inj halloc)
      exact .inl ⟨rfl, hzero, rfl, rfl⟩

/-! ## Collection -/

/-- What collecting `id` does to a block. -/
structure Struck (rb rb' : Ring) (id : ℤ) (o : ℕ) : Prop where
  keeps : ¬ (rb.Whole o ∧ rb.id o = id) → SameBlock rb rb' o
  used : rb'.Used o → rb.Used o ∧ rb.id o ≠ id

/-- What collecting `id` does to the ring. -/
structure Collected (rb rb' : Ring) (l : List ℕ) (id : ℤ) : Prop where
  tiled : rb'.Tiled l
  size : rb'.size = rb.size
  struck : ∀ o ∈ l, Struck rb rb' id o

theorem setId_id (rb : Ring) (o : ℕ) {v : ℤ} (hv : Memory.IsInt v) : (rb.setId o v).id o = v :=
  Memory.getInt_putInt _ _ hv

theorem isInt_minus : Memory.IsInt (-1) := by
  unfold Memory.IsInt
  omega

/-- The loop from `blk` on leaves the blocks before it. -/
theorem Tiled.collectFrom_spec (h : rb.Tiled l) {id : ℤ} {fuel : ℕ} (hblk : blk ∈ l)
    (hc : rb.collectFrom id fuel blk = some rb') :
    rb'.Tiled l ∧ rb'.size = rb.size ∧
      ∀ o ∈ l, (o < blk → SameBlock rb rb' o) ∧ (blk ≤ o → Struck rb rb' id o) := by
  induction fuel generalizing rb blk with
  | zero => cases hc
  | succ fuel ih =>
    rw [Ring.collectFrom] at hc
    -- the block itself
    generalize hq : (if rb.Whole blk ∧ rb.id blk = id then rb.setId blk (-1) else rb) = q at hc
    have hstep : Inside rb q blk ∧ Struck rb q id blk := by
      by_cases hcond : rb.Whole blk ∧ rb.id blk = id
      · rw [if_pos hcond] at hq
        subst hq
        exact ⟨h.inside_setId hblk hcond.1 _, fun hno => absurd hcond hno,
          fun hu => absurd hu (not_used (rb.setId_id blk isInt_minus))⟩
      · rw [if_neg hcond] at hq
        subst hq
        exact ⟨.refl _ _, fun _ => .refl _ _, fun hu => ⟨hu, fun he => hcond ⟨hu.1, he⟩⟩⟩
    obtain ⟨hinside, hstruck⟩ := hstep
    have hqt : q.Tiled l := h.inside hinside hblk
    have hfour : ∀ o ∈ l, 4 ≤ rb.span o := fun o ho => (h.block ho).2.2.2.2.2.1
    have hsq : ∀ o ∈ l, o ≠ blk → SameBlock rb q o := fun o ho => h.sameBlock hinside hblk ho
    rcases hqt.block_next_cases hblk with ⟨hnext, hend⟩ | ⟨hnext, hm⟩
    · -- the last block
      rw [hnext] at hc
      obtain rfl := Option.some.inj hc
      refine ⟨hqt, hinside.same.size, fun o ho => ⟨fun hlt => hsq o ho (by omega), fun hge => ?_⟩⟩
      obtain rfl : o = blk := by
        by_contra hne
        have h1 := hqt.tiles.disjoint hblk ho (by omega)
        have h2 := hqt.block ho
        omega
      exact hstruck
    · rw [hnext, Option.bind_some] at hc
      obtain ⟨ht, hsize, hrest⟩ := ih hqt hm hc
      refine ⟨ht, hsize.trans hinside.same.size, fun o ho => ⟨fun hlt => ?_, fun hge => ?_⟩⟩
      · exact (hsq o ho (by omega)).trans ((hrest o ho).1 (by omega)) (hfour o ho)
      · by_cases hne : o = blk
        · subst hne
          have hpos := (hqt.block hblk)
          have hsame := (hrest o ho).1 (by omega)
          refine ⟨fun hno => (hstruck.keeps hno).trans hsame (hfour o ho), fun hu => ?_⟩
          exact hstruck.used ((hsame.used hpos.2.2.2.2.2.1 hpos.1 hpos.2.2.2.1).mp hu)
        · have hlater := hqt.tiles.disjoint hblk ho (by omega)
          have hrb := h.block ho
          have hiff := (hsq o ho hne).used (hfour o ho) hrb.1 hrb.2.2.2.1
          obtain ⟨hk, hu⟩ := (hrest o ho).2 hlater
          have hwhole : q.Whole o ∧ q.id o = id → rb.Whole o ∧ rb.id o = id := by
            rintro ⟨hw, hid⟩
            have hlen := (hsq o ho hne).length (hfour o ho)
            have hw' : rb.Whole o := by
              unfold Whole at hw ⊢
              rwa [hlen] at hw
            have := (h.whole ho).mp hw'
            rw [(hsq o ho hne).id (by omega)] at hid
            exact ⟨hw', hid⟩
          refine ⟨fun hno => (hsq o ho hne).trans (hk fun hq => hno (hwhole hq)) (hfour o ho),
            fun hused => ?_⟩
          obtain ⟨hu1, hu2⟩ := hu hused
          have hused' := hiff.mp hu1
          have := h.used ho hused'
          rw [(hsq o ho hne).id (by omega)] at hu2
          exact ⟨hused', hu2⟩

theorem Tiled.firstUsed_spec (h : rb.Tiled l) {fuel : ℕ} {r : Option ℕ} (hblk : blk ∈ l)
    (hr : rb.firstUsed fuel blk = some r) :
    (∃ o ∈ l, r = some o ∧ rb.Used o) ∨ (r = none ∧ ∀ o ∈ l, blk ≤ o → ¬ rb.Used o) := by
  induction fuel generalizing blk with
  | zero => cases hr
  | succ fuel ih =>
    rw [Ring.firstUsed] at hr
    by_cases hu : rb.Used blk
    · rw [if_pos hu] at hr
      obtain rfl := Option.some.inj hr
      exact .inl ⟨blk, hblk, rfl, hu⟩
    · rw [if_neg hu] at hr
      rcases h.block_next_cases hblk with ⟨hnext, hend⟩ | ⟨hnext, hm⟩
      · rw [hnext] at hr
        obtain rfl := Option.some.inj hr
        refine .inr ⟨rfl, fun o ho hge => ?_⟩
        obtain rfl : o = blk := by
          by_contra hne
          have h1 := h.tiles.disjoint hblk ho (by omega)
          have h2 := h.block ho
          omega
        exact hu
      · rw [hnext, Option.bind_some] at hr
        refine (ih hm hr).imp_right fun hrest => ⟨hrest.1, fun o ho hge => ?_⟩
        by_cases hne : o = blk
        · rw [hne]
          exact hu
        · exact hrest.2 o ho (h.tiles.disjoint hblk ho (by omega))

/-- The owner that is collected is that of some block, if there is one. -/
theorem Tiled.collect_spec (h : rb.Tiled l) {id : ℤ} (hc : rb.ringbuffer_collect = some (rb', id)) :
    Collected rb rb' l id ∧
      ((∃ o ∈ l, rb.Used o ∧ rb.id o = id) ∨ (id = -1 ∧ ∀ o ∈ l, ¬ rb.Used o)) := by
  have hloop : ∀ q : Ring, q.Tiled l → q.collectFrom id q.size 0 = some rb' → Collected q rb' l id := by
    intro q hq hq'
    obtain ⟨ht, hsize, hrest⟩ := hq.collectFrom_spec hq.zero_mem hq'
    exact ⟨ht, hsize, fun o ho => (hrest o ho).2 (Nat.zero_le _)⟩
  have hzero : ({ rb with head := 0 } : Ring).Tiled l := h.setHead h.zero_mem
  unfold ringbuffer_collect at hc
  obtain ⟨⟨q, i⟩, hlast, hc⟩ := Option.bind_eq_some_iff.mp hc
  obtain ⟨q', hq', heq⟩ := Option.map_eq_some_iff.mp hc
  obtain ⟨rfl, rfl⟩ := Prod.mk.inj heq
  unfold last_id at hlast
  obtain ⟨r, hr, hlast⟩ := Option.bind_eq_some_iff.mp hlast
  cases r with
  | some b =>
    obtain ⟨rfl, rfl⟩ := Prod.mk.inj (Option.some.inj hlast)
    rcases h.firstUsed_spec h.head hr with ⟨o, ho, heq, hu⟩ | ⟨hnone, -⟩
    · obtain rfl := Option.some.inj heq
      exact ⟨hloop _ h hq', .inl ⟨b, ho, hu, rfl⟩⟩
    · cases hnone
  | none =>
    obtain ⟨r, hr, hlast⟩ := Option.map_eq_some_iff.mp hlast
    cases r with
    | some b =>
      obtain ⟨rfl, rfl⟩ := Prod.mk.inj hlast
      rcases hzero.firstUsed_spec hzero.head hr with ⟨o, ho, heq, hu⟩ | ⟨hnone, -⟩
      · obtain rfl := Option.some.inj heq
        obtain ⟨ht, hsize, hs⟩ := hloop _ hzero hq'
        exact ⟨⟨ht, hsize, fun o ho => ⟨(hs o ho).keeps, (hs o ho).used⟩⟩, .inl ⟨b, ho, hu, rfl⟩⟩
      · cases hnone
    | none =>
      obtain ⟨rfl, rfl⟩ := Prod.mk.inj hlast
      rcases hzero.firstUsed_spec hzero.head hr with ⟨o, -, heq, -⟩ | ⟨-, hall⟩
      · cases heq
      · obtain ⟨ht, hsize, hs⟩ := hloop _ hzero hq'
        exact ⟨⟨ht, hsize, fun o ho => ⟨(hs o ho).keeps, (hs o ho).used⟩⟩,
          .inr ⟨rfl, fun o ho => hall o ho (Nat.zero_le _)⟩⟩

/-! ## Shrinking -/

/-- Shrinking to nothing gives the whole block back. -/
theorem Tiled.shrink_zero (h : rb.Tiled l) (hblk : blk ∈ l)
    (hs : rb.ringbuffer_shrink blk 0 = some rb') : rb' = { rb with head := blk } ∧ rb'.Tiled l := by
  unfold ringbuffer_shrink at hs
  rw [if_pos rfl] at hs
  obtain rfl := Option.some.inj hs
  exact ⟨rfl, h.setHead hblk⟩

/-- How shrinking to something ends. -/
theorem shrink_cases {s : ℤ} (hs0 : s ≠ 0) (hs : rb.ringbuffer_shrink blk s = some rb') :
    alignLength s ≤ ALIGN (rb.length blk) ∧
      ((alignLength s = ALIGN (rb.length blk) ∧ rb' = rb.setLength blk (s + sizeofBlock)) ∨
        ∃ next, (rb.setLength blk (s + sizeofBlock)).block_next blk = some (some next) ∧
          alignLength s < ALIGN (rb.length blk) ∧
          rb' = { (rb.setLength blk (s + sizeofBlock)).leave next
            (ALIGN (rb.length blk) - alignLength s) with head := next }) := by
  unfold ringbuffer_shrink at hs
  rw [if_neg hs0] at hs
  dsimp only at hs
  by_cases hle : alignLength s ≤ ALIGN (rb.length blk)
  · rw [if_pos hle] at hs
    refine ⟨hle, ?_⟩
    by_cases heq : alignLength s = ALIGN (rb.length blk)
    · rw [if_pos heq] at hs
      obtain rfl := Option.some.inj hs
      exact .inl ⟨heq, rfl⟩
    · rw [if_neg heq] at hs
      obtain ⟨x, hx, hs⟩ := Option.bind_eq_some_iff.mp hs
      cases x with
      | none => cases hs
      | some next =>
        obtain rfl := Option.some.inj hs
        exact .inr ⟨next, hx, by omega, rfl⟩
  · rw [if_neg hle] at hs
    cases hs

/-- Shrinking to `s` bytes leaves a block for these, with the bytes in it. -/
theorem Tiled.shrink_spec (h : rb.Tiled l) {s : ℤ} (hblk : blk ∈ l) (hf : rb.Fresh n blk)
    (hpos : 0 < s) (hsn : s ≤ n) (hs : rb.ringbuffer_shrink blk s = some rb') :
    ∃ l', Allocated rb rb' l l' s blk ∧
      ∀ i : ℕ, blk + 16 ≤ i → (i : ℤ) < blk + 16 + s → rb'.mem i = rb.mem i := by
  obtain ⟨hlen, hspan, hmod, hlespan, -, -, hsize⟩ := h.block hblk
  have hbounded := h.bounded
  have hseg : Tiles rb.span blk (blk + rb.span blk) [blk] := .single rb.span (by omega)
  obtain ⟨l₁, l₂, rfl, h₁, h₂⟩ := h.tiles.stretch hblk hseg (h.tiles.next hblk)
  have hfree : ∀ o ∈ [blk], ¬ rb.Used o := by
    intro o ho
    rw [List.mem_singleton.mp ho]
    exact not_used hf.id
  obtain ⟨hle, hcases⟩ := shrink_cases (by omega) hs
  obtain ⟨hA, -, hA4⟩ := align_spec (sizeofBlock + s)
  have hfl := hf.length
  have hAl : alignLength s = ALIGN (sizeofBlock + s) :=
    alignLength_eq hpos.le (by unfold sizeofBlock at hfl; omega)
  rw [hAl, ← hspan] at hle hcases
  generalize hAs : ALIGN (sizeofBlock + s) = A at *
  have h16 : 16 + s ≤ A := hA
  have hint : Memory.IsInt (s + sizeofBlock) := by
    unfold Memory.IsInt sizeofBlock
    omega
  -- the block with its new length
  generalize hq : rb.setLength blk (s + sizeofBlock) = q at *
  have hqsame : SameOutside rb q blk (blk + 4) := by
    rw [← hq]
    exact sameOutside_putInt rb _ le_rfl le_rfl
  have hqlen : q.length blk = sizeofBlock + s := by
    rw [← hq, add_comm sizeofBlock s]
    exact Memory.getInt_putInt _ _ hint
  have hqfresh : q.Fresh s blk :=
    ⟨hqlen, (hqsame.field (by omega)).trans hf.offset, (hqsame.field (by omega)).trans hf.id,
      (hqsame.field (by omega)).trans hf.next⟩
  have hqspan : q.span blk = A.toNat := by
    unfold Ring.span
    rw [hqlen, hAs]
  have hqhead : q.head = rb.head := by
    rw [← hq]
    exact rb.setLength_head _ _
  rcases hcases with ⟨heq, rfl⟩ | ⟨next, hnext, hlt, rfl⟩
  · -- nothing is left behind it
    have htile : Tiles rb'.span blk (blk + rb.span blk) [blk] := by
      have hsingle := Tiles.single (a := blk) rb'.span (by omega)
      rwa [hqspan, show blk + A.toNat = blk + rb.span blk by omega] at hsingle
    refine ⟨_, h.carved h₁ h₂ (by omega) hfree (hqsame.mono le_rfl (by omega)) htile ?_ ?_ hqfresh,
      fun i hi _ => hqsame.mem i (by omega)⟩
    · rw [hqhead]
      exact h.head
    · intro o ho
      rw [List.mem_singleton.mp ho]
      exact not_used hqfresh.id
  · generalize hr : (rb.span blk : ℤ) - A = rest
    have hrest4 : rest % 4 = 0 ∧ 4 ≤ rest := by omega
    have hrint : Memory.IsInt rest := by
      unfold Memory.IsInt
      omega
    have hnextA : next = blk + A.toNat := by
      unfold Ring.block_next at hnext
      rw [hqlen, hAs, hqsame.size, if_neg (by omega), if_pos (by omega)] at hnext
      have := Option.some.inj (Option.some.inj hnext)
      omega
    generalize hq' : q.leave next rest = q'
    have hleave : SameOutside q q' next (next + rest.toNat) := by
      rw [← hq']
      exact q.leave_outside hrest4.2 hrint
    have hspec : q'.length next = rest ∧ ¬ q'.Used next := by
      rw [← hq']
      exact q.leave_spec _ hrint
    have hsame : SameOutside rb q' blk (blk + rb.span blk) :=
      (hqsame.mono le_rfl (by omega)).trans (hleave.mono (by omega) (by omega))
    have hfresh' : q'.Fresh s blk :=
      ⟨(hleave.field (by omega)).trans hqfresh.length, (hleave.field (by omega)).trans hqfresh.offset,
        (hleave.field (by omega)).trans hqfresh.id, (hleave.field (by omega)).trans hqfresh.next⟩
    have hspan1 : q'.span blk = A.toNat := by
      unfold Ring.span
      rw [hfresh'.length, hAs]
    have hspan2 : q'.span next = rest.toNat := by
      unfold Ring.span
      rw [hspec.1, align_eq hrest4.1]
    have hlast : Tiles q'.span next (blk + rb.span blk) [next] := by
      have hsingle := Tiles.single (a := next) q'.span (by omega)
      rwa [hspan2, show next + rest.toNat = blk + rb.span blk by omega] at hsingle
    have htiles : Tiles q'.span blk (blk + rb.span blk) [blk, next] := by
      refine .cons (by omega) ?_
      rwa [hspan1, show blk + A.toNat = next by omega]
    have hcarved : Allocated rb { q' with head := next } _ _ _ _ := h.carved h₁ h₂ (by omega) hfree
      ⟨hsame.size, hsame.mem⟩ htiles (mem_stretch.mpr (.inr (by simp))) ?_
      ⟨hfresh'.length, hfresh'.offset, hfresh'.id, hfresh'.next⟩
    · refine ⟨_, hcarved, fun i hi1 hi2 => ?_⟩
      exact (hleave.mem i (by omega)).trans (hqsame.mem i (by omega))
    · intro o ho
      rcases List.mem_cons.mp ho with rfl | ho
      · exact not_used hfresh'.id
      · rw [List.mem_singleton.mp ho]
        exact hspec.2

end Ring

end DnServer.Gate
