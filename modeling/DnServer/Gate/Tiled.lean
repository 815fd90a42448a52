import DnServer.Gate.RingBuffer

/-!
# The blocks tile the ring

The headers cut the ring into blocks without gap or overlap, and the head is at
the beginning of one. Every operation keeps this: what it writes lies inside one
block, or exchanges a stretch of free blocks for others that cover the same.
-/

namespace DnServer.Gate

open DnServer.Lib

theorem align_spec (s : ℤ) : s ≤ ALIGN s ∧ ALIGN s < s + 4 ∧ ALIGN s % 4 = 0 := by
  unfold ALIGN
  omega

theorem align_eq {s : ℤ} (h : s % 4 = 0) : ALIGN s = s := by
  unfold ALIGN
  omega

/-- The length is what it should be while that is an `int`. -/
theorem alignLength_eq {n : ℤ} (hn : 0 ≤ n) (hle : n ≤ 2147483628) :
    alignLength n = ALIGN (sizeofBlock + n) := by
  unfold alignLength ALIGN sizeofBlock
  rw [Int.bmod_eq_of_le (by omega) (by omega)]

namespace Ring

/-- The bytes a block takes up. -/
def span (rb : Ring) (blk : ℕ) : ℕ := (ALIGN (rb.length blk)).toNat

/-- The blocks of `l` tile the ring. -/
structure Tiled (rb : Ring) (l : List ℕ) : Prop where
  tiles : Tiles rb.span 0 rb.size l
  head : rb.head ∈ l
  room : 16 ≤ rb.size
  bounded : rb.size < 2 ^ 31

variable {rb rb' : Ring} {l l' : List ℕ} {a b o o' blk : ℕ}

theorem span_spec (h : 0 < rb.span o) :
    0 < rb.length o ∧ (rb.span o : ℤ) = ALIGN (rb.length o) ∧ rb.span o % 4 = 0 ∧
      rb.length o ≤ rb.span o ∧ rb.span o < rb.length o + 4 := by
  unfold span at *
  have := align_spec (rb.length o)
  omega

/-- What is known about a block of the ring. -/
theorem Tiled.block (h : rb.Tiled l) (ho : o ∈ l) :
    0 < rb.length o ∧ (rb.span o : ℤ) = ALIGN (rb.length o) ∧ rb.span o % 4 = 0 ∧
      rb.length o ≤ rb.span o ∧ rb.span o < rb.length o + 4 ∧ 4 ≤ rb.span o ∧
      o + rb.span o ≤ rb.size := by
  obtain ⟨-, hpos, hle⟩ := h.tiles.bounds ho
  have := span_spec hpos
  omega

theorem whole_iff (h : 0 < rb.length o) : rb.Whole o ↔ 16 ≤ rb.length o := by
  unfold Whole sizeofBlock
  omega

theorem Tiled.whole (h : rb.Tiled l) (ho : o ∈ l) : rb.Whole o ↔ 16 ≤ rb.length o :=
  whole_iff (h.block ho).1

/-- A block of someone has room for its header. -/
theorem Tiled.used (h : rb.Tiled l) (ho : o ∈ l) (hu : rb.Used o) :
    16 ≤ rb.length o ∧ 0 ≤ rb.id o := ⟨(h.whole ho).mp hu.1, hu.2⟩

theorem Tiled.block_next (h : rb.Tiled l) (ho : o ∈ l) :
    rb.block_next o = some (if o + rb.span o = rb.size then none else some (o + rb.span o)) := by
  obtain ⟨-, hspan, -, -, -, -, hle⟩ := h.block ho
  unfold Ring.block_next
  rw [← hspan]
  by_cases he : o + rb.span o = rb.size
  · rw [if_pos he, if_pos (by exact_mod_cast he)]
  · rw [if_neg he, if_neg (by exact_mod_cast he), if_pos (by omega)]
    rfl

/-- The way from block to block. -/
theorem Tiled.block_next_cases (h : rb.Tiled l) (ho : o ∈ l) :
    (rb.block_next o = some none ∧ o + rb.span o = rb.size) ∨
      (rb.block_next o = some (some (o + rb.span o)) ∧ o + rb.span o ∈ l) := by
  rw [h.block_next ho]
  rcases h.tiles.next ho with he | hm
  · rw [if_pos he]
    exact .inl ⟨rfl, he⟩
  · have := h.block hm
    rw [if_neg (by omega)]
    exact .inr ⟨rfl, hm⟩

/-- From the header at 0 on one comes through all blocks. -/
theorem Tiled.blocks (h : rb.Tiled l) : rb.blocks = some l := by
  have hwalk : ∀ (fuel a : ℕ) (l' : List ℕ), (∀ o ∈ l', o ∈ l) → a < rb.size →
      Tiles rb.span a rb.size l' → l'.length ≤ fuel → rb.walk fuel a = some l' := by
    intro fuel
    induction fuel with
    | zero =>
      intro a l' _ hlt ht hlen
      have := List.length_pos_iff.mpr (ht.ne_nil hlt)
      omega
    | succ fuel ih =>
      intro a l' hsub hlt ht hlen
      cases ht with
      | nil => omega
      | @cons _ _ l' hpos hrest =>
        have ha := hsub a List.mem_cons_self
        rw [walk]
        rcases h.block_next_cases ha with ⟨hnext, he⟩ | ⟨hnext, hm⟩
        · rw [hnext, Option.bind_some]
          rw [he] at hrest
          rw [hrest.unique (.nil _)]
        · have hlt' : a + rb.span a < rb.size := by
            have := h.block hm
            omega
          rw [hnext, Option.bind_some]
          show (rb.walk fuel _).map _ = _
          rw [ih _ l' (fun o ho => hsub o (List.mem_cons_of_mem _ ho)) hlt' hrest
            (by simpa using hlen)]
          rfl
  have := h.room
  exact hwalk rb.size 0 l (fun _ ho => ho) (by omega) h.tiles (by have := h.tiles.length_le; omega)

/-! ## What stays -/

/-- All bytes outside `[a, b)` are the same. -/
structure SameOutside (rb rb' : Ring) (a b : ℕ) : Prop where
  size : rb'.size = rb.size
  mem : ∀ i, i < a ∨ b ≤ i → rb'.mem i = rb.mem i

/-- All bytes of the block are the same. -/
def SameBlock (rb rb' : Ring) (o : ℕ) : Prop :=
  ∀ i, o ≤ i → i < o + rb.span o → rb'.mem i = rb.mem i

theorem SameOutside.refl (rb : Ring) (a b : ℕ) : SameOutside rb rb a b := ⟨rfl, fun _ _ => rfl⟩

theorem SameOutside.trans {rb'' : Ring} (h : SameOutside rb rb' a b) (h' : SameOutside rb' rb'' a b) :
    SameOutside rb rb'' a b :=
  ⟨h'.size.trans h.size, fun i hi => (h'.mem i hi).trans (h.mem i hi)⟩

theorem SameOutside.mono {a' b' : ℕ} (h : SameOutside rb rb' a b) (ha : a' ≤ a) (hb : b ≤ b') :
    SameOutside rb rb' a' b' := ⟨h.size, fun i hi => h.mem i (by omega)⟩

theorem sameOutside_putInt (rb : Ring) {c : ℕ} (v : ℤ) (ha : a ≤ c) (hb : c + 4 ≤ b) :
    SameOutside rb { rb with mem := rb.mem.putInt c v } a b :=
  ⟨rfl, fun _ hi => Memory.putInt_outside (by omega)⟩

theorem SameOutside.field (h : SameOutside rb rb' a b) {c : ℕ} (hd : c + 4 ≤ a ∨ b ≤ c) :
    rb'.mem.getInt c = rb.mem.getInt c := by
  apply Memory.getInt_congr
  intro i _ _
  exact h.mem i (by omega)

theorem SameOutside.length (h : SameOutside rb rb' a b) (hd : o + 4 ≤ a ∨ b ≤ o) :
    rb'.length o = rb.length o := h.field hd

theorem SameOutside.span (h : SameOutside rb rb' a b) (hd : o + 4 ≤ a ∨ b ≤ o) :
    rb'.span o = rb.span o := by
  unfold Ring.span
  rw [h.length hd]

theorem SameBlock.length (h : SameBlock rb rb' o) (hs : 4 ≤ rb.span o) :
    rb'.length o = rb.length o := by
  apply Memory.getInt_congr
  intro i _ _
  exact h i (by omega) (by omega)

theorem SameBlock.span (h : SameBlock rb rb' o) (hs : 4 ≤ rb.span o) : rb'.span o = rb.span o := by
  unfold Ring.span
  rw [h.length hs]

/-- A field of the header of a block that is the same. -/
theorem SameBlock.field (h : SameBlock rb rb' o) {k : ℕ} (hs : k + 4 ≤ rb.span o) :
    rb'.mem.getInt (o + k) = rb.mem.getInt (o + k) := by
  apply Memory.getInt_congr
  intro i _ _
  exact h i (by omega) (by omega)

theorem SameBlock.id (h : SameBlock rb rb' o) (hs : 16 ≤ rb.span o) : rb'.id o = rb.id o :=
  h.field (by omega)

theorem SameBlock.next (h : SameBlock rb rb' o) (hs : 16 ≤ rb.span o) : rb'.next o = rb.next o :=
  h.field (by omega)

theorem SameBlock.offset (h : SameBlock rb rb' o) (hs : 16 ≤ rb.span o) :
    rb'.offset o = rb.offset o := h.field (by omega)

theorem SameBlock.used (h : SameBlock rb rb' o) (hs : 4 ≤ rb.span o) (hpos : 0 < rb.length o)
    (hle : rb.length o ≤ rb.span o) : rb'.Used o ↔ rb.Used o := by
  have hlen := h.length hs
  have hwhole : rb'.Whole o ↔ rb.Whole o := by
    unfold Whole
    rw [hlen]
  by_cases h16 : 16 ≤ rb.length o
  · unfold Used
    rw [hwhole, h.id (by omega)]
  · have hno : ¬ rb.Whole o := fun hw => h16 ((whole_iff hpos).mp hw)
    exact ⟨fun hu => absurd (hwhole.mp hu.1) hno, fun hu => absurd hu.1 hno⟩

theorem SameBlock.refl (rb : Ring) (o : ℕ) : SameBlock rb rb o := fun _ _ _ => rfl

theorem SameBlock.trans {rb'' : Ring} (h : SameBlock rb rb' o) (h' : SameBlock rb' rb'' o)
    (hs : 4 ≤ rb.span o) : SameBlock rb rb'' o := by
  intro i hi1 hi2
  rw [h' i hi1 (by rw [h.span hs]; exact hi2), h i hi1 hi2]

/-- A change inside one block, behind its length, leaves the tiling and the other blocks. -/
structure Inside (rb rb' : Ring) (o : ℕ) : Prop where
  same : SameOutside rb rb' (o + 4) (o + rb.span o)
  head : rb'.head = rb.head

theorem Inside.refl (rb : Ring) (o : ℕ) : Inside rb rb o := ⟨.refl _ _ _, rfl⟩

theorem Inside.length (h : Inside rb rb' o) : rb'.length o = rb.length o :=
  h.same.length (.inl le_rfl)

theorem Inside.span (h : Inside rb rb' o) : rb'.span o = rb.span o := h.same.span (.inl le_rfl)

theorem Inside.trans {rb'' : Ring} (h : Inside rb rb' o) (h' : Inside rb' rb'' o) :
    Inside rb rb'' o := by
  have hsame := h'.same
  rw [h.span] at hsame
  exact ⟨h.same.trans hsame, h'.head.trans h.head⟩

/-- Every other block is the same. -/
theorem Tiled.sameBlock (h : rb.Tiled l) (hi : Inside rb rb' o) (ho : o ∈ l) (ho' : o' ∈ l)
    (hne : o' ≠ o) : SameBlock rb rb' o' := by
  intro i hi1 hi2
  apply hi.same.mem
  rcases Nat.lt_or_ge o o' with hlt | hge
  · have := h.tiles.disjoint ho ho' hlt
    omega
  · have := h.tiles.disjoint ho' ho (by omega)
    omega

theorem Tiled.inside (h : rb.Tiled l) (hi : Inside rb rb' o) (ho : o ∈ l) : rb'.Tiled l where
  tiles := by
    rw [hi.same.size]
    apply h.tiles.congr
    intro o' ho'
    by_cases hne : o' = o
    · rw [hne]
      exact hi.span
    · exact (h.sameBlock hi ho ho' hne).span (h.block ho').2.2.2.2.2.1
  head := by
    rw [hi.head]
    exact h.head
  room := by
    rw [hi.same.size]
    exact h.room
  bounded := by
    rw [hi.same.size]
    exact h.bounded

/-- A field behind the length. -/
theorem inside_putInt (rb : Ring) {k : ℕ} (v : ℤ) (hk : 4 ≤ k) (hs : k + 4 ≤ rb.span o) :
    Inside rb { rb with mem := rb.mem.putInt (o + k) v } o :=
  ⟨sameOutside_putInt rb v (by omega) (by omega), rfl⟩

theorem Tiled.inside_setId (h : rb.Tiled l) (ho : o ∈ l) (hw : rb.Whole o) (v : ℤ) :
    Inside rb (rb.setId o v) o := by
  have := h.block ho
  have := (h.whole ho).mp hw
  exact inside_putInt rb v (by omega) (by omega)

theorem Tiled.inside_setNext (h : rb.Tiled l) (ho : o ∈ l) (hw : rb.Whole o) (v : ℤ) :
    Inside rb (rb.setNext o v) o := by
  have := h.block ho
  have := (h.whole ho).mp hw
  exact inside_putInt rb v (by omega) (by omega)

theorem Tiled.inside_setOffset (h : rb.Tiled l) (ho : o ∈ l) (hw : rb.Whole o) (v : ℤ) :
    Inside rb (rb.setOffset o v) o := by
  have := h.block ho
  have := (h.whole ho).mp hw
  exact inside_putInt rb v (by omega) (by omega)

/-- The head moves to another block. -/
theorem Tiled.setHead (h : rb.Tiled l) (ho : o ∈ l) : ({ rb with head := o } : Ring).Tiled l :=
  ⟨h.tiles, ho, h.room, h.bounded⟩

theorem Tiled.zero_mem (h : rb.Tiled l) : 0 ∈ l := by
  have := h.room
  exact h.tiles.first_mem (by omega)

/-- A stretch of blocks is exchanged for others that cover the same. -/
theorem Tiled.exchange {l₁ seg l₂ seg' : List ℕ} (h : rb.Tiled (l₁ ++ seg ++ l₂))
    (h₁ : Tiles rb.span 0 a l₁) (h₂ : Tiles rb.span b rb.size l₂)
    (hsame : SameOutside rb rb' a b) (hseg' : Tiles rb'.span a b seg')
    (hhead : rb'.head ∈ l₁ ++ seg' ++ l₂) : rb'.Tiled (l₁ ++ seg' ++ l₂) where
  tiles := by
    have hfour : ∀ o ∈ l₁ ++ seg ++ l₂, 4 ≤ rb.span o := fun o ho => (h.block ho).2.2.2.2.2.1
    have h₁' : Tiles rb'.span 0 a l₁ := by
      apply h₁.congr
      intro o ho
      have := (h₁.bounds ho).2.2
      have := hfour o (by simp [ho])
      exact hsame.span (by omega)
    have h₂' : Tiles rb'.span b rb'.size l₂ := by
      rw [hsame.size]
      apply h₂.congr
      intro o ho
      have := (h₂.bounds ho).1
      exact hsame.span (by omega)
    exact (h₁'.append hseg').append h₂'
  head := hhead
  room := by
    rw [hsame.size]
    exact h.room
  bounded := by
    rw [hsame.size]
    exact h.bounded

end Ring

end DnServer.Gate
