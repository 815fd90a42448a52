import DnServer.Gate.Chain

/-!
# The loops of the ring end

Over blocks that tile the ring, the search for free space and the collection come to
what they look for or to the end of the ring. A search that finds nothing has met a
block of someone, or has counted the whole ring. A size whose block is too long for
an `int` is different: the length that is looked for is negative, and the first block
that is nobody's is taken for it.
-/

namespace DnServer.Gate

open DnServer.Lib

/-- The aligned length of a block that is too long for an `int` is negative. -/
theorem alignLength_neg {n : ℤ} (hbig : 2147483628 < n) (hint : n < 2147483648) :
    alignLength n < 0 := by
  unfold alignLength ALIGN sizeofBlock
  rw [Int.bmod_def]
  split <;> omega

namespace Ring

variable {rb rb' : Ring} {l : List ℕ} {blk fuel : ℕ} {n : ℤ}

/-! ## Allocation -/

/-- The search ends, refused only by a block of someone. -/
theorem Tiled.search_ends (h : rb.Tiled l) (need f : ℤ) (hblk : blk ∈ l)
    (hfuel : rb.size ≤ blk + fuel) :
    ∃ s, rb.search need fuel blk f = some s ∧ (s = .refused → ∃ o ∈ l, rb.Used o) ∧
      (s = .ended → f + (rb.size - blk) < need) := by
  induction fuel generalizing blk f with
  | zero =>
    have := h.block hblk
    omega
  | succ fuel ih =>
    obtain ⟨-, hspan, -, -, -, hfour, -⟩ := h.block hblk
    rw [Ring.search]
    by_cases hu : rb.Used blk
    · rw [if_pos hu]
      exact ⟨_, rfl, fun _ => ⟨blk, hblk, hu⟩, by simp⟩
    · rw [if_neg hu]
      dsimp only
      by_cases hneed : need ≤ f + ALIGN (rb.length blk)
      · rw [if_pos hneed]
        exact ⟨_, rfl, by simp, by simp⟩
      · rw [if_neg hneed]
        rcases h.block_next_cases hblk with ⟨hnext, hend⟩ | ⟨hnext, hm⟩
        · rw [hnext]
          exact ⟨_, rfl, by simp, fun _ => by omega⟩
        · rw [hnext, Option.bind_some]
          obtain ⟨s, hs, hrefused, hended⟩ := ih (f + ALIGN (rb.length blk)) hm (by omega)
          refine ⟨s, hs, hrefused, fun he => ?_⟩
          have := hended he
          push_cast at this
          omega

/-- A block that ends in the ring can be carved out. -/
theorem Tiled.alloc_ends (h : rb.Tiled l) (total : ℤ) (hn : 0 ≤ n)
    (hneed : rb.head + ALIGN (sizeofBlock + n) ≤ rb.size) : ∃ r, rb.alloc total n = some r := by
  have hbounded := h.bounded
  obtain ⟨hA, -, -⟩ := align_spec (sizeofBlock + n)
  have hint : Memory.IsInt (sizeofBlock + n) := by
    unfold Memory.IsInt
    unfold sizeofBlock at *
    omega
  have hnext : ∃ x, (rb.opened rb.head n).block_next rb.head = some x := by
    unfold Ring.block_next
    rw [(rb.opened_fresh rb.head hint).length, (rb.opened_outside rb.head n).size]
    by_cases hend : (rb.head : ℤ) + ALIGN (sizeofBlock + n) = rb.size
    · rw [if_pos hend]
      exact ⟨_, rfl⟩
    · rw [if_neg hend, if_pos (by unfold sizeofBlock at *; omega)]
      exact ⟨_, rfl⟩
  obtain ⟨x, hx⟩ := hnext
  unfold alloc
  change ∃ r, ((rb.opened rb.head n).block_next rb.head).map _ = some r
  rw [hx]
  exact ⟨_, rfl⟩

/-- Allocation gives a block unless there is a block of someone, or the ring is too short. -/
theorem Tiled.ringbuffer_alloc_ends (h : rb.Tiled l) (hn : 0 ≤ n) (hle : n ≤ 2147483628) :
    ∃ rb' r, rb.ringbuffer_alloc n = some (rb', r) ∧
      (r = none → (∃ o ∈ l, rb.Used o) ∨ rb.size < ALIGN (sizeofBlock + n)) := by
  have hzero : ({ rb with head := 0 } : Ring).Tiled l := h.setHead h.zero_mem
  -- where a search finds enough, the block ends in the ring
  have hfound : ∀ (q : Ring) (f : ℤ), q.Tiled l →
      q.search (alignLength n) q.size q.head 0 = some (.found f) →
        ∃ r, q.alloc f n = some r := by
    intro q f hq hs
    have hself : (q.head : ℤ) - q.head = 0 := by ring
    rw [← hself, alignLength_eq hn hle] at hs
    obtain ⟨seg, e, -, -, rfl, hneed, he⟩ := hq.search_found hq.head (.nil _) (by simp) hs
    have hesize : e ≤ q.size := by
      rcases he with rfl | hmem
      · exact le_rfl
      · have := hq.block hmem
        omega
    exact hq.alloc_ends _ hn (by omega)
  obtain ⟨s, hs, hrefused, -⟩ := h.search_ends (alignLength n) 0 h.head
    (Nat.le_add_left rb.size rb.head)
  unfold ringbuffer_alloc
  dsimp only
  rw [hs, Option.bind_some]
  cases s with
  | refused => exact ⟨_, _, rfl, fun _ => .inl (hrefused rfl)⟩
  | found f =>
    obtain ⟨r, hr⟩ := hfound rb f h hs
    dsimp only
    rw [hr]
    exact ⟨_, _, rfl, by simp⟩
  | ended =>
    obtain ⟨s, hs, hrefused, hended⟩ := hzero.search_ends (alignLength n) 0
      hzero.head (Nat.le_add_left rb.size 0)
    dsimp only at hs ⊢
    rw [hs, Option.bind_some]
    cases s with
    | refused => exact ⟨_, _, rfl, fun _ => .inl (hrefused rfl)⟩
    | found f =>
      obtain ⟨r, hr⟩ := hfound _ f hzero hs
      dsimp only
      rw [hr]
      exact ⟨_, _, rfl, by simp⟩
    | ended =>
      refine ⟨_, _, rfl, fun _ => .inr ?_⟩
      have := hended rfl
      rw [alignLength_eq hn hle] at this
      dsimp only at this
      omega

/-- A block of someone at the head is in the way of every size. -/
theorem Tiled.alloc_refused (h : rb.Tiled l) (hu : rb.Used rb.head) :
    rb.ringbuffer_alloc n = some (rb, none) := by
  obtain ⟨k, hk⟩ : ∃ k, rb.size = k + 1 := ⟨rb.size - 1, by have := h.room; omega⟩
  unfold ringbuffer_alloc
  dsimp only
  rw [hk, Ring.search, if_pos hu]
  rfl

/-- A block that is too long for an `int` is taken for the first block that is nobody's. -/
theorem Tiled.alloc_overflow (h : rb.Tiled l) {r : Option ℕ} (hbig : 2147483628 < n)
    (hint : n < 2147483648) (hu : ¬rb.Used rb.head)
    (halloc : rb.ringbuffer_alloc n = some (rb', r)) : r ≠ none ∧ rb'.size = rb.size := by
  have hneg := alignLength_neg hbig hint
  obtain ⟨hpos, -, -, hle, -⟩ := h.block h.head
  obtain ⟨k, hk⟩ : ∃ k, rb.size = k + 1 := ⟨rb.size - 1, by have := h.room; omega⟩
  have hA := align_spec (rb.length rb.head)
  have hs : rb.search (alignLength n) rb.size rb.head 0 =
      some (.found (0 + ALIGN (rb.length rb.head))) := by
    rw [hk, Ring.search, if_neg hu]
    dsimp only
    rw [if_pos (by omega)]
  unfold ringbuffer_alloc at halloc
  dsimp only at halloc
  rw [hs, Option.bind_some] at halloc
  obtain ⟨⟨q, b⟩, hq, heq⟩ := Option.map_eq_some_iff.mp halloc
  obtain ⟨rfl, rfl⟩ := Prod.mk.inj heq
  refine ⟨Option.some_ne_none b, ?_⟩
  have hopened := (rb.opened_outside rb.head n).size
  obtain ⟨-, ⟨-, rfl⟩ | ⟨next, -, ⟨-, rfl⟩ | ⟨-, rfl⟩⟩⟩ := alloc_cases hq
  · exact hopened
  · exact (leave_frame _ next _).2.trans hopened
  · exact hopened

/-! ## Collection -/

theorem Tiled.firstUsed_ends (h : rb.Tiled l) (hblk : blk ∈ l) (hfuel : rb.size ≤ blk + fuel) :
    ∃ r, rb.firstUsed fuel blk = some r := by
  induction fuel generalizing blk with
  | zero =>
    have := h.block hblk
    omega
  | succ fuel ih =>
    obtain ⟨-, -, -, -, -, hfour, -⟩ := h.block hblk
    rw [Ring.firstUsed]
    by_cases hu : rb.Used blk
    · rw [if_pos hu]
      exact ⟨_, rfl⟩
    · rw [if_neg hu]
      rcases h.block_next_cases hblk with ⟨hnext, -⟩ | ⟨hnext, hm⟩
      · rw [hnext]
        exact ⟨_, rfl⟩
      · rw [hnext, Option.bind_some]
        exact ih hm (by omega)

theorem Tiled.collectFrom_ends (h : rb.Tiled l) (id : ℤ) (hblk : blk ∈ l)
    (hfuel : rb.size ≤ blk + fuel) : ∃ rb', rb.collectFrom id fuel blk = some rb' := by
  induction fuel generalizing rb blk with
  | zero =>
    have := h.block hblk
    omega
  | succ fuel ih =>
    rw [Ring.collectFrom]
    generalize hq : (if rb.Whole blk ∧ rb.id blk = id then rb.setId blk (-1) else rb) = q
    have hinside : Inside rb q blk := by
      by_cases hcond : rb.Whole blk ∧ rb.id blk = id
      · rw [if_pos hcond] at hq
        rw [← hq]
        exact h.inside_setId hblk hcond.1 _
      · rw [if_neg hcond] at hq
        rw [← hq]
        exact .refl _ _
    have hqt : q.Tiled l := h.inside hinside hblk
    obtain ⟨-, -, -, -, -, hfour, -⟩ := hqt.block hblk
    rcases hqt.block_next_cases hblk with ⟨hnext, -⟩ | ⟨hnext, hm⟩
    · rw [hnext]
      exact ⟨_, rfl⟩
    · rw [hnext, Option.bind_some]
      have hsize := hinside.same.size
      exact ih hqt hm (by omega)

/-- Collection always ends. -/
theorem Tiled.collect_ends (h : rb.Tiled l) : ∃ r, rb.ringbuffer_collect = some r := by
  have hzero : ({ rb with head := 0 } : Ring).Tiled l := h.setHead h.zero_mem
  have hlast : ∃ q id, rb.last_id = some (q, id) ∧ q.Tiled l := by
    obtain ⟨r, hr⟩ := h.firstUsed_ends h.head (Nat.le_add_left rb.size rb.head)
    unfold last_id
    rw [hr, Option.bind_some]
    cases r with
    | some blk => exact ⟨_, _, rfl, h⟩
    | none =>
      obtain ⟨r, hr⟩ := hzero.firstUsed_ends hzero.head (Nat.le_add_left rb.size 0)
      dsimp only at hr ⊢
      rw [hr]
      cases r with
      | some blk => exact ⟨_, _, rfl, hzero⟩
      | none => exact ⟨_, _, rfl, hzero⟩
  obtain ⟨q, id, hq, ht⟩ := hlast
  obtain ⟨rb', hrb'⟩ := ht.collectFrom_ends id ht.zero_mem (Nat.le_add_left q.size 0)
  unfold ringbuffer_collect
  rw [hq, Option.bind_some]
  dsimp only
  rw [hrb']
  exact ⟨_, rfl⟩

theorem collectFrom_head {id : ℤ} (hc : rb.collectFrom id fuel blk = some rb') :
    rb'.head = rb.head := by
  induction fuel generalizing rb blk with
  | zero => cases hc
  | succ fuel ih =>
    rw [Ring.collectFrom] at hc
    generalize hq : (if rb.Whole blk ∧ rb.id blk = id then rb.setId blk (-1) else rb) = q at hc
    have hhead : q.head = rb.head := by
      rw [← hq]
      split
      · exact rb.setId_head blk _
      · rfl
    obtain ⟨next, -, hc⟩ := Option.bind_eq_some_iff.mp hc
    cases next with
    | none =>
      obtain rfl := Option.some.inj hc
      exact hhead
    | some next => exact (ih hc).trans hhead

/-- With a block of someone at the head it is his that are collected, and the head stays. -/
theorem Tiled.collect_head (h : rb.Tiled l) (hu : rb.Used rb.head) {r : Ring × ℤ}
    (hc : rb.ringbuffer_collect = some r) :
    r.2 = rb.id rb.head ∧ r.1.head = rb.head ∧ ¬r.1.Used rb.head := by
  obtain ⟨k, hk⟩ : ∃ k, rb.size = k + 1 := ⟨rb.size - 1, by have := h.room; omega⟩
  have hlast : rb.last_id = some (rb, rb.id rb.head) := by
    unfold last_id
    rw [hk, Ring.firstUsed, if_pos hu]
    rfl
  obtain ⟨hcollected, -⟩ : Collected rb r.1 l r.2 ∧ _ := h.collect_spec hc
  unfold ringbuffer_collect at hc
  rw [hlast, Option.bind_some] at hc
  obtain ⟨q, hq, rfl⟩ := Option.map_eq_some_iff.mp hc
  refine ⟨rfl, collectFrom_head hq, fun hused => ?_⟩
  exact ((hcollected.struck rb.head h.head).used hused).2 rfl

end Ring

end DnServer.Gate
