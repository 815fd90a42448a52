import DnServer.Gate.Alloc

/-!
# Chains of blocks

What a socket holds is a chain: blocks of one owner, each pointing at the next.
Linking puts one chain behind another, freeing and yielding let go of blocks from
the front, and neither touches a block outside the chains.
-/

namespace DnServer.Gate

open DnServer.Lib

namespace Ring

variable {rb rb' : Ring} {l c t : List ℕ} {o x blk : ℕ} {i v : ℤ} {p r : Option ℕ}

/-! ## Single fields -/

theorem setId_length (rb : Ring) (o : ℕ) (v : ℤ) : (rb.setId o v).length o = rb.length o :=
  Memory.getInt_putInt_of_disjoint (by omega)

theorem setId_offset (rb : Ring) (o : ℕ) (v : ℤ) : (rb.setId o v).offset o = rb.offset o :=
  Memory.getInt_putInt_of_disjoint (by omega)

theorem setId_next (rb : Ring) (o : ℕ) (v : ℤ) : (rb.setId o v).next o = rb.next o :=
  Memory.getInt_putInt_of_disjoint (by omega)

theorem setId_follow (rb : Ring) (o : ℕ) (v : ℤ) : (rb.setId o v).follow o = rb.follow o := by
  unfold follow
  rw [setId_next]

theorem setId_whole (rb : Ring) (o : ℕ) (v : ℤ) : (rb.setId o v).Whole o ↔ rb.Whole o := by
  unfold Whole
  rw [setId_length]

theorem setNext_length (rb : Ring) (o : ℕ) (v : ℤ) : (rb.setNext o v).length o = rb.length o :=
  Memory.getInt_putInt_of_disjoint (by omega)

theorem setNext_id (rb : Ring) (o : ℕ) (v : ℤ) : (rb.setNext o v).id o = rb.id o :=
  Memory.getInt_putInt_of_disjoint (by omega)

theorem setNext_next (rb : Ring) (o : ℕ) (hv : Memory.IsInt v) : (rb.setNext o v).next o = v :=
  Memory.getInt_putInt _ _ hv

theorem setNext_whole (rb : Ring) (o : ℕ) (v : ℤ) : (rb.setNext o v).Whole o ↔ rb.Whole o := by
  unfold Whole
  rw [setNext_length]

theorem setOffset_length (rb : Ring) (o : ℕ) (v : ℤ) : (rb.setOffset o v).length o = rb.length o :=
  Memory.getInt_putInt_of_disjoint (by omega)

theorem setOffset_whole (rb : Ring) (o : ℕ) (v : ℤ) : (rb.setOffset o v).Whole o ↔ rb.Whole o := by
  unfold Whole
  rw [setOffset_length]

theorem setOffset_id (rb : Ring) (o : ℕ) (v : ℤ) : (rb.setOffset o v).id o = rb.id o :=
  Memory.getInt_putInt_of_disjoint (by omega)

theorem setOffset_next (rb : Ring) (o : ℕ) (v : ℤ) : (rb.setOffset o v).next o = rb.next o :=
  Memory.getInt_putInt_of_disjoint (by omega)

/-! ## Chains -/

/-- The blocks from `p` on, all of `i`, in the order of the chain. -/
inductive Chain (rb : Ring) (i : ℤ) : Option ℕ → List ℕ → Prop
  | nil : Chain rb i none []
  | cons {o : ℕ} {c : List ℕ} :
      rb.Whole o → rb.id o = i → Chain rb i (rb.follow o) c → Chain rb i (some o) (o :: c)

theorem Chain.mem (h : Chain rb i p c) (ho : o ∈ c) : rb.Whole o ∧ rb.id o = i := by
  induction h with
  | nil => cases ho
  | cons hw hid _ ih =>
    rcases List.mem_cons.mp ho with rfl | ho
    · exact ⟨hw, hid⟩
    · exact ih ho

theorem Chain.used (h : Chain rb i p c) (hi : 0 ≤ i) (ho : o ∈ c) : rb.Used o := by
  obtain ⟨hw, hid⟩ := h.mem ho
  exact ⟨hw, by rw [hid]; exact hi⟩

/-- A chain is followed in one way only. -/
theorem Chain.unique (h : Chain rb i p c) (h' : Chain rb i p t) : c = t := by
  induction h generalizing t with
  | nil =>
    cases h'
    rfl
  | cons _ _ _ ih =>
    cases h' with
    | cons _ _ hrest => rw [ih hrest]

/-- From each of its blocks on a chain is one. -/
theorem Chain.split (h : Chain rb i p c) (ho : o ∈ c) :
    ∃ t, Chain rb i (some o) t ∧ t.length ≤ c.length := by
  induction h with
  | nil => cases ho
  | @cons x c hw hid hrest ih =>
    rcases List.mem_cons.mp ho with rfl | ho
    · exact ⟨o :: c, .cons hw hid hrest, le_rfl⟩
    · obtain ⟨t, ht, hlen⟩ := ih ho
      exact ⟨t, ht, by rw [List.length_cons]; omega⟩

/-- A chain that ends comes to no block twice. -/
theorem Chain.nodup (h : Chain rb i p c) : c.Nodup := by
  induction h with
  | nil => exact List.nodup_nil
  | @cons o c hw hid hrest ih =>
    refine List.nodup_cons.mpr ⟨fun ho => ?_, ih⟩
    obtain ⟨t, ht, hlen⟩ := hrest.split ho
    obtain rfl := ht.unique (.cons hw hid hrest)
    rw [List.length_cons] at hlen
    omega

theorem Tiled.chain_length (h : rb.Tiled l) (hc : Chain rb i p c) (hsub : ∀ x ∈ c, x ∈ l) :
    c.length ≤ rb.size := by
  have hle := (hc.nodup.subperm hsub).length_le
  have := h.tiles.length_le
  omega

/-- A chain depends on the headers of its blocks only. -/
theorem Chain.congr (h : Chain rb i p c)
    (heq : ∀ o ∈ c, (rb.Whole o → rb'.Whole o) ∧ rb'.id o = rb.id o ∧ rb'.next o = rb.next o) :
    Chain rb' i p c := by
  induction h with
  | nil => exact .nil
  | @cons o c hw hid _ ih =>
    obtain ⟨h1, h2, h3⟩ := heq o List.mem_cons_self
    have hrest := ih fun o ho => heq o (List.mem_cons_of_mem _ ho)
    have hfollow : rb'.follow o = rb.follow o := by
      unfold follow
      rw [h3]
    rw [← hfollow] at hrest
    exact .cons (h1 hw) (h2.trans hid) hrest

theorem SameBlock.header (h : rb.Tiled l) (ho : o ∈ l) (hw : rb.Whole o) (hs : SameBlock rb rb' o) :
    rb'.Whole o ∧ rb'.id o = rb.id o ∧ rb'.next o = rb.next o ∧ rb'.offset o = rb.offset o := by
  obtain ⟨-, -, -, hle, -, hfour, -⟩ := h.block ho
  have h16 := (h.whole ho).mp hw
  refine ⟨?_, hs.id (by omega), hs.next (by omega), hs.offset (by omega)⟩
  unfold Whole at hw ⊢
  rwa [hs.length hfour]

theorem Chain.same (h : Chain rb i p c) (ht : rb.Tiled l) (hsub : ∀ o ∈ c, o ∈ l)
    (hsame : ∀ o ∈ c, SameBlock rb rb' o) : Chain rb' i p c := by
  apply h.congr
  intro o ho
  obtain ⟨h1, h2, h3, -⟩ := (hsame o ho).header ht (hsub o ho) (h.mem ho).1
  exact ⟨fun _ => h1, h2, h3⟩

/-- Where the loop of `ringbuffer_link` ends. -/
theorem Chain.last_spec {fuel : ℕ} {b : ℕ} (h : Chain rb i (some o) c)
    (hl : rb.last fuel o = some b) : ∃ d, c = d ++ [b] := by
  induction fuel generalizing o c with
  | zero => cases hl
  | succ fuel ih =>
    cases h with
    | @cons o c hw hid hrest =>
      rw [Ring.last] at hl
      cases hf : rb.follow o with
      | none =>
        rw [hf] at hl hrest
        obtain rfl := Option.some.inj hl
        cases hrest
        exact ⟨[], rfl⟩
      | some next =>
        rw [hf] at hl hrest
        obtain ⟨d, rfl⟩ := ih hrest hl
        exact ⟨o :: d, rfl⟩

/-- A chain whose last block comes to point at another chain. -/
theorem Chain.extend {b : ℕ} {d : List ℕ} (h : Chain rb i p (d ++ [b]))
    (heq : ∀ o ∈ d, (rb.Whole o → rb'.Whole o) ∧ rb'.id o = rb.id o ∧ rb'.next o = rb.next o)
    (hw : rb'.Whole b) (hid : rb'.id b = i) (ht : Chain rb' i (rb'.follow b) t) :
    Chain rb' i p (d ++ b :: t) := by
  induction d generalizing p with
  | nil =>
    cases h with
    | cons _ _ _ => exact .cons hw hid ht
  | cons o d ih =>
    cases h with
    | cons how hoid hrest =>
      obtain ⟨h1, h2, h3⟩ := heq o List.mem_cons_self
      have hrest' := ih hrest fun o ho => heq o (List.mem_cons_of_mem _ ho)
      have hfollow : rb'.follow o = rb.follow o := by
        unfold follow
        rw [h3]
      rw [← hfollow] at hrest'
      exact .cons (h1 how) (h2.trans hoid) hrest'

/-- Blocks outside `c` are the same. -/
structure Apart (rb rb' : Ring) (l c : List ℕ) : Prop where
  tiled : rb'.Tiled l
  size : rb'.size = rb.size
  head : rb'.head = rb.head
  same : ∀ x ∈ l, x ∉ c → SameBlock rb rb' x

theorem Tiled.apart_inside (h : rb.Tiled l) (ho : o ∈ l) (hi : Inside rb rb' o) :
    Apart rb rb' l [o] where
  tiled := h.inside hi ho
  size := hi.same.size
  head := hi.head
  same _ hx hne := h.sameBlock hi ho hx fun he => hne (List.mem_singleton.mpr he)

theorem Apart.mono {c' : List ℕ} (h : Apart rb rb' l c) (hsub : ∀ x ∈ c, x ∈ c') :
    Apart rb rb' l c' := ⟨h.tiled, h.size, h.head, fun x hx hn => h.same x hx fun hm => hn (hsub x hm)⟩

theorem Apart.trans {rb'' : Ring} (ht : rb.Tiled l) (h : Apart rb rb' l c) (h' : Apart rb' rb'' l c) :
    Apart rb rb'' l c where
  tiled := h'.tiled
  size := h'.size.trans h.size
  head := h'.head.trans h.head
  same x hx hn := (h.same x hx hn).trans (h'.same x hx hn) (ht.block hx).2.2.2.2.2.1

/-- A block that is nobody's and does not change stays so. -/
theorem Apart.unused (hap : Apart rb rb' l c) (h : rb.Tiled l) (ho : o ∈ l) (hoc : o ∉ c)
    (hfree : ¬ rb.Used o) : ¬ rb'.Used o := by
  obtain ⟨hpos, -, -, hle, -, hfour, -⟩ := h.block ho
  rwa [(hap.same o ho hoc).used hfour hpos hle]

/-- A chain that has none of the blocks that change. -/
theorem Chain.apart {d : List ℕ} (h : Chain rb i p c) (ht : rb.Tiled l) (hsub : ∀ x ∈ c, x ∈ l)
    (hap : Apart rb rb' l d) (hdisj : ∀ x ∈ c, x ∉ d) : Chain rb' i p c :=
  h.same ht hsub fun x hx => hap.same x (hsub x hx) (hdisj x hx)

/-- The data of a block that is the same. -/
theorem Tiled.same_fields (h : rb.Tiled l) (ho : o ∈ l) (hw : rb.Whole o)
    (hs : SameBlock rb rb' o) : rb'.offset o = rb.offset o ∧ rb'.length o = rb.length o :=
  ⟨(hs.header h ho hw).2.2.2, hs.length (h.block ho).2.2.2.2.2.1⟩

/-- The headers of such a chain. -/
theorem Chain.fields {d : List ℕ} (h : Chain rb i p c) (ht : rb.Tiled l) (hsub : ∀ x ∈ c, x ∈ l)
    (hap : Apart rb rb' l d) (hdisj : ∀ x ∈ c, x ∉ d) :
    ∀ x ∈ c, rb'.offset x = rb.offset x ∧ rb'.length x = rb.length x := by
  intro x hx
  exact ht.same_fields (hsub x hx) (h.mem hx).1 (hap.same x (hsub x hx) (hdisj x hx))

/-- The two writes of `ringbuffer_link`, with `b` the last block of the chain. -/
theorem Tiled.link_writes {b : ℕ} (h : rb.Tiled l) (hb : b ∈ l) (hbw : rb.Whole b) (hblk : blk ∈ l)
    (hw : rb.Whole blk) (hne : b ≠ blk) (hi : Memory.IsInt i)
    (hlinked : rb' = (rb.setId blk i).setNext b blk) :
    Apart rb rb' l [b, blk] ∧ (rb'.Whole b ∧ rb'.id b = rb.id b ∧ rb'.follow b = some blk) ∧
      rb'.Whole blk ∧ rb'.id blk = i ∧ rb'.follow blk = rb.follow blk := by
  have h1 := h.apart_inside hblk (h.inside_setId hblk hw i)
  obtain ⟨hbw', hbid, -⟩ := (h1.same b hb (by simpa using hne)).header h hb hbw
  have h2 := h1.tiled.apart_inside hb (h1.tiled.inside_setNext hb hbw' blk)
  rw [← hlinked] at h2
  have hboth : Apart rb rb' l [b, blk] := (h1.mono (by simp)).trans h (h2.mono (by simp))
  refine ⟨hboth, ⟨?_, ?_, ?_⟩, ?_⟩
  · rw [hlinked]
    exact (Ring.setNext_whole _ b blk).mpr hbw'
  · rw [hlinked, setNext_id, hbid]
  · have hint : Memory.IsInt blk := by
      have := h.block hblk
      have := h.bounded
      unfold Memory.IsInt
      omega
    unfold follow
    rw [hlinked, setNext_next _ b hint, if_pos (by omega), Int.toNat_natCast]
  · obtain ⟨hwhole, hid, hnext, -⟩ := (h2.same blk hblk (by simpa using Ne.symm hne)).header
      h1.tiled hblk ((rb.setId_whole blk i).mpr hw)
    refine ⟨hwhole, hid.trans (rb.setId_id blk hi), ?_⟩
    unfold follow
    rw [hnext, setId_next]

theorem Tiled.link_spec (h : rb.Tiled l) (hc : Chain rb i (some o) c) (hsub : ∀ x ∈ c, x ∈ l)
    (hblk : blk ∈ l) (hw : rb.Whole blk) (ht : Chain rb i (rb.follow blk) t)
    (htsub : ∀ x ∈ t, x ∈ l) (hnodup : (c ++ blk :: t).Nodup) (hi : Memory.IsInt i)
    (hl : rb.ringbuffer_link o blk = some rb') :
    Apart rb rb' l (c ++ [blk]) ∧ Chain rb' i (some o) (c ++ blk :: t) := by
  obtain ⟨b, hlast, heq⟩ := Option.map_eq_some_iff.mp hl
  obtain ⟨d, rfl⟩ := hc.last_spec hlast
  have hb : b ∈ l := hsub b (by simp)
  obtain ⟨hbw, hbid⟩ := hc.mem (o := b) (by simp)
  rw [hbid] at heq
  -- the blocks are all different
  rw [List.append_assoc] at hnodup
  obtain ⟨-, hrest, hdisj⟩ := List.nodup_append.mp hnodup
  have hne : b ≠ blk := by
    rintro rfl
    simp at hrest
  have hdb : ∀ x ∈ d, x ∉ [b, blk] := by
    intro x hx
    simpa using ⟨hdisj x hx b (by simp), hdisj x hx blk (by simp)⟩
  have htb : ∀ x ∈ t, x ∉ [b, blk] := by
    intro x hx
    simp only [List.mem_cons, List.not_mem_nil, or_false, not_or]
    constructor
    · rintro rfl
      simp [hx] at hrest
    · rintro rfl
      simp [hx] at hrest
  obtain ⟨hboth, ⟨hbw', hbid', hbnext⟩, hblkw, hblkid, hblknext⟩ :=
    h.link_writes hb hbw hblk hw hne hi heq.symm
  refine ⟨hboth.mono (by simp), ?_⟩
  -- the second chain is as it was, and the first one points at it
  have hsecond : Chain rb' i (some blk) (blk :: t) := by
    refine .cons hblkw hblkid ?_
    rw [hblknext]
    exact ht.apart h htsub hboth htb
  rw [List.append_assoc]
  refine hc.extend (fun x hx => ?_) hbw' (hbid'.trans hbid) ?_
  · obtain ⟨w, hid, hnext, -⟩ := (hboth.same x (hsub x (by simp [hx])) (hdb x hx)).header h
      (hsub x (by simp [hx])) (hc.mem (by simp [hx])).1
    exact ⟨fun _ => w, hid, hnext⟩
  · rw [hbnext]
    exact hsecond

/-! ## Letting go -/

theorem Tiled.freeFrom_spec (h : rb.Tiled l) {fuel : ℕ} (hc : Chain rb i (some o) c) (hi : 0 ≤ i)
    (hsub : ∀ x ∈ c, x ∈ l) (hfuel : c.length ≤ fuel) :
    ∃ rb', rb.freeFrom i fuel o = some rb' ∧ Apart rb rb' l c ∧ ∀ x ∈ c, ¬ rb'.Used x := by
  induction fuel generalizing rb o c with
  | zero =>
    cases hc with
    | cons _ _ _ =>
      rw [List.length_cons] at hfuel
      omega
  | succ fuel ih =>
    have hnodup := hc.nodup
    cases hc with
    | @cons o c hw hid hrest =>
      have ho := hsub o List.mem_cons_self
      obtain ⟨hoc, -⟩ := List.nodup_cons.mp hnodup
      have hcl : ∀ x ∈ c, x ∈ l := fun x hx => hsub x (List.mem_cons_of_mem _ hx)
      have hq := h.apart_inside ho (h.inside_setId ho hw (-1))
      have hfree : ¬ (rb.setId o (-1)).Used o := not_used (rb.setId_id o isInt_minus)
      have hrest' := hrest.apart h hcl hq fun x hx hm => hoc (List.mem_singleton.mp hm ▸ hx)
      rw [Ring.freeFrom, if_pos ⟨⟨hw, by rw [hid]; exact hi⟩, hid⟩]
      dsimp only
      rw [setId_follow]
      cases hn : rb.follow o with
      | none =>
        rw [hn] at hrest
        cases hrest
        refine ⟨_, rfl, hq, fun x hx => ?_⟩
        rw [List.mem_singleton.mp hx]
        exact hfree
      | some next =>
        rw [hn] at hrest'
        obtain ⟨rb', hf, hap, hall⟩ := ih hq.tiled hrest' hcl (by simpa using hfuel)
        refine ⟨rb', hf, (hq.mono (by simp)).trans h
          (hap.mono fun x hx => List.mem_cons_of_mem _ hx), fun x hx => ?_⟩
        rcases List.mem_cons.mp hx with rfl | hx
        · exact hap.unused hq.tiled ho hoc hfree
        · exact hall x hx

/-- Freeing a chain makes its blocks nobody's. -/
theorem Tiled.free_spec (h : rb.Tiled l) (hc : Chain rb i p c) (hi : 0 ≤ i)
    (hsub : ∀ x ∈ c, x ∈ l) :
    ∃ rb', rb.ringbuffer_free p = some rb' ∧ Apart rb rb' l c ∧ ∀ x ∈ c, ¬ rb'.Used x := by
  have hlen := h.chain_length hc hsub
  cases p with
  | none =>
    cases hc
    exact ⟨rb, rfl, ⟨h, rfl, rfl, fun x _ _ => .refl _ x⟩, by simp⟩
  | some o =>
    cases hc with
    | cons hw hid hrest =>
      change ∃ rb', rb.freeFrom (rb.id o) rb.size o = some rb' ∧ _
      rw [hid]
      exact h.freeFrom_spec (.cons hw hid hrest) hi hsub hlen

/-- There is data left in every block of a chain: in the first one from its offset on. -/
def Filled (rb : Ring) : List ℕ → Prop
  | [] => True
  | o :: c => (0 ≤ rb.offset o ∧ rb.offset o + sizeofBlock < rb.length o) ∧
      ∀ x ∈ c, rb.offset x = 0 ∧ sizeofBlock < rb.length x

theorem Filled.tail (h : rb.Filled (o :: c)) : rb.Filled c := by
  cases c with
  | nil => trivial
  | cons x c =>
    obtain ⟨hoff, hlen⟩ := h.2 x List.mem_cons_self
    exact ⟨⟨hoff.ge, by omega⟩, fun y hy => h.2 y (List.mem_cons_of_mem _ hy)⟩

/-- The data of a chain depends on the headers of its blocks only. -/
theorem Filled.congr (h : rb.Filled c)
    (heq : ∀ o ∈ c, rb'.offset o = rb.offset o ∧ rb'.length o = rb.length o) : rb'.Filled c := by
  cases c with
  | nil => trivial
  | cons o c =>
    obtain ⟨h1, h2⟩ := heq o List.mem_cons_self
    refine ⟨by rw [h1, h2]; exact h.1, fun x hx => ?_⟩
    obtain ⟨h3, h4⟩ := heq x (List.mem_cons_of_mem _ hx)
    rw [h3, h4]
    exact h.2 x hx

/-- What is left of a chain whose first blocks were let go. -/
structure Left (rb rb' : Ring) (l c c' : List ℕ) (i : ℤ) (r : Option ℕ) : Prop where
  apart : Apart rb rb' l c
  chain : Chain rb' i r c'
  suffix : c' <:+ c
  filled : rb'.Filled c'
  freed : ∀ x ∈ c, x ∉ c' → ¬ rb'.Used x

/-- The first block stays, with more of it skipped. -/
theorem Tiled.left_skip (h : rb.Tiled l) {skip : ℤ} (hc : Chain rb i (some o) (o :: c))
    (hsub : ∀ x ∈ o :: c, x ∈ l) (hfill : rb.Filled (o :: c)) (hskip : 0 ≤ skip)
    (hlt : skip < rb.length o - sizeofBlock - rb.offset o) :
    Left rb (rb.setOffset o (rb.offset o + skip)) l (o :: c) (o :: c) i (some o) := by
  obtain ⟨hoc, -⟩ := List.nodup_cons.mp hc.nodup
  have ho := hsub o List.mem_cons_self
  have hcl : ∀ x ∈ c, x ∈ l := fun x hx => hsub x (List.mem_cons_of_mem _ hx)
  have hfirst := hfill.1
  cases hc with
  | cons hw hid hrest =>
    have hq := h.apart_inside ho (h.inside_setOffset ho hw (rb.offset o + skip))
    have hdisj : ∀ x ∈ c, x ∉ [o] := fun x hx hm => hoc (List.mem_singleton.mp hm ▸ hx)
    have hrest' : Chain (rb.setOffset o (rb.offset o + skip)) i
        ((rb.setOffset o (rb.offset o + skip)).follow o) c := by
      unfold follow
      rw [setOffset_next]
      exact hrest.apart h hcl hq hdisj
    have hoffset : (rb.setOffset o (rb.offset o + skip)).offset o = rb.offset o + skip := by
      refine Memory.getInt_putInt _ _ ?_
      have := h.block ho
      have := h.bounded
      unfold Memory.IsInt
      unfold sizeofBlock at *
      omega
    refine ⟨hq.mono (by simp), .cons ((rb.setOffset_whole o _).mpr hw)
      ((rb.setOffset_id o _).trans hid) hrest', List.suffix_refl _, ⟨?_, fun x hx => ?_⟩,
      fun x hx hn => absurd hx hn⟩
    · rw [hoffset, setOffset_length]
      omega
    · obtain ⟨h1, h2⟩ := hrest.fields h hcl hq hdisj x hx
      rw [h1, h2]
      exact hfill.2 x hx

/-- The first block goes, and then others may. -/
theorem Left.drop {q : Ring} {c' : List ℕ} {r : Option ℕ} (h : rb.Tiled l) (ho : o ∈ l)
    (hoc : o ∉ c) (hap : Apart rb q l [o]) (hfree : ¬ q.Used o) (hleft : Left q rb' l c c' i r) :
    Left rb rb' l (o :: c) c' i r where
  apart := (hap.mono (by simp)).trans h (hleft.apart.mono fun x hx => List.mem_cons_of_mem _ hx)
  chain := hleft.chain
  suffix := hleft.suffix.trans (List.suffix_cons _ _)
  filled := hleft.filled
  freed x hx hn := by
    rcases List.mem_cons.mp hx with rfl | hx
    · exact hleft.apart.unused hap.tiled ho hoc hfree
    · exact hleft.freed x hx hn

theorem Tiled.yieldFrom_spec (h : rb.Tiled l) {fuel : ℕ} {skip : ℤ} (hc : Chain rb i (some o) c)
    (hsub : ∀ x ∈ c, x ∈ l) (hfill : rb.Filled c) (hskip : 0 ≤ skip) (hfuel : c.length ≤ fuel) :
    ∃ rb' r c', rb.yieldFrom fuel o (rb.length o - sizeofBlock - rb.offset o) skip =
      some (rb', r) ∧ Left rb rb' l c c' i r := by
  induction fuel generalizing rb o c skip with
  | zero =>
    cases hc with
    | cons _ _ _ =>
      rw [List.length_cons] at hfuel
      omega
  | succ fuel ih =>
    have hwhole := hc
    cases hc with
    | @cons o c hw hid hrest =>
      have ho := hsub o List.mem_cons_self
      obtain ⟨hoc, -⟩ := List.nodup_cons.mp hwhole.nodup
      have hcl : ∀ x ∈ c, x ∈ l := fun x hx => hsub x (List.mem_cons_of_mem _ hx)
      rw [Ring.yieldFrom]
      by_cases hlt : skip < rb.length o - sizeofBlock - rb.offset o
      · rw [if_pos hlt]
        exact ⟨_, _, o :: c, rfl, h.left_skip hwhole hsub hfill hskip hlt⟩
      · rw [if_neg hlt]
        have hq := h.apart_inside ho (h.inside_setId ho hw (-1))
        have hfree : ¬ (rb.setId o (-1)).Used o := not_used (rb.setId_id o isInt_minus)
        have hdisj : ∀ x ∈ c, x ∉ [o] := fun x hx hm => hoc (List.mem_singleton.mp hm ▸ hx)
        have hheader := hrest.fields h hcl hq hdisj
        have hrest' := hrest.apart h hcl hq hdisj
        dsimp only
        rw [setId_follow]
        cases hn : rb.follow o with
        | none =>
          rw [hn] at hrest
          cases hrest
          have hnil : Left (rb.setId o (-1)) (rb.setId o (-1)) l [] [] i none :=
            ⟨⟨hq.tiled, rfl, rfl, fun x _ _ => .refl _ x⟩, .nil, List.nil_suffix, trivial,
              fun x hx => absurd hx List.not_mem_nil⟩
          exact ⟨_, _, [], rfl, .drop h ho hoc hq hfree hnil⟩
        | some next =>
          rw [hn] at hrest'
          have hnext : next ∈ c := by
            rw [hn] at hrest
            cases hrest with
            | cons _ _ _ => exact List.mem_cons_self
          -- nothing of the next block was skipped before
          obtain ⟨hoff, -⟩ := hfill.2 next hnext
          obtain ⟨hoff', -⟩ := hheader next hnext
          dsimp only
          rw [if_pos (hoff'.trans hoff)]
          have hrestskip : 0 ≤ skip - (rb.length o - sizeofBlock - rb.offset o) := by omega
          obtain ⟨rb', r, c', hy, hleft⟩ := ih hq.tiled hrest' hcl (hfill.tail.congr hheader)
            hrestskip (by simpa using hfuel)
          rw [hoff', hoff, sub_zero] at hy
          exact ⟨rb', r, c', hy, .drop h ho hoc hq hfree hleft⟩

/-- Yielding lets go of the blocks that were skipped and moves the offset of the next one. -/
theorem Tiled.yield_spec (h : rb.Tiled l) {skip : ℤ} (hc : Chain rb i (some o) c)
    (hsub : ∀ x ∈ c, x ∈ l) (hfill : rb.Filled c) (hskip : 0 ≤ skip) :
    ∃ rb' r c', rb.ringbuffer_yield o skip = some (rb', r) ∧ Left rb rb' l c c' i r :=
  h.yieldFrom_spec hc hsub hfill hskip (h.chain_length hc hsub)

/-! ## Copying -/

theorem memcpy_outside (rb : Ring) (src : ℤ) {dst n : ℤ} {a b : ℕ} (ha : a ≤ dst) (hb : dst + n ≤ b) :
    SameOutside rb (rb.memcpy dst src n) a b := by
  refine ⟨rfl, fun k hk => Memory.putBytes_outside ?_⟩
  rw [Memory.length_bytes]
  omega

/-- Copying writes into the data of the destination only. -/
theorem Tiled.copyPieces_inside (h : rb.Tiled l) {fuel dst b : ℕ} {ptr src length size : ℤ}
    (hdst : dst ∈ l) (hw : rb.Whole dst) (hc : Chain rb i (some o) c) (hsub : ∀ x ∈ c, x ∈ l)
    (hnot : dst ∉ c) (hptr : dst + 16 ≤ ptr) (hlen : 0 ≤ length)
    (hend : ptr + size ≤ dst + rb.span dst)
    (hcopy : rb.copyPieces fuel ptr src length size o = some (rb', b)) :
    SameOutside rb rb' (dst + 16) (dst + rb.span dst) ∧ rb'.head = rb.head ∧ b ∈ c := by
  have h16 : 16 ≤ rb.span dst := by
    have := h.block hdst
    have := (h.whole hdst).mp hw
    omega
  induction fuel generalizing rb o c ptr src length size with
  | zero => cases hcopy
  | succ fuel ih =>
    rw [Ring.copyPieces] at hcopy
    cases hc with
    | @cons o c how hoid hrest =>
      by_cases hlt : length < size
      · rw [if_pos hlt] at hcopy
        have hq : SameOutside rb (rb.memcpy ptr src length) (dst + 16) (dst + rb.span dst) :=
          rb.memcpy_outside src (by omega) (by omega)
        have hin : Inside rb (rb.memcpy ptr src length) dst := ⟨hq.mono (by omega) le_rfl, rfl⟩
        have ho := hsub o List.mem_cons_self
        have hcl : ∀ x ∈ c, x ∈ l := fun x hx => hsub x (List.mem_cons_of_mem _ hx)
        have hother : ∀ x ∈ o :: c, SameBlock rb (rb.memcpy ptr src length) x := by
          intro x hx
          apply h.sameBlock hin hdst (hsub x hx)
          rintro rfl
          exact hnot hx
        have hfollow : (rb.memcpy ptr src length).follow o = rb.follow o := by
          unfold follow
          rw [((hother o List.mem_cons_self).header h ho how).2.2.1]
        dsimp only at hcopy
        rw [hfollow] at hcopy
        cases hn : rb.follow o with
        | none =>
          rw [hn] at hcopy
          cases hcopy
        | some next =>
          rw [hn] at hcopy hrest
          dsimp only at hcopy
          by_cases hoff : (rb.memcpy ptr src length).offset next = 0
          · rw [if_pos hoff] at hcopy
            have hrest' := hrest.same h hcl fun x hx => hother x (List.mem_cons_of_mem _ hx)
            have hnext : next ∈ c := by
              cases hrest with
              | cons _ _ _ => exact List.mem_cons_self
            have hnl := hcl next hnext
            have hqt := h.inside hin hdst
            have hnlen := (hqt.whole hnl).mp (hrest'.mem hnext).1
            have hdw : (rb.memcpy ptr src length).Whole dst := by
              unfold Whole at hw ⊢
              rwa [hin.length]
            obtain ⟨hs, hh, hb⟩ := ih hqt hdw hrest' hcl (fun hm => hnot (List.mem_cons_of_mem _ hm))
              (by omega) (by unfold sizeofBlock; omega) (by rw [hin.span]; omega) hcopy
              (by rw [hin.span]; exact h16)
            rw [hin.span] at hs
            exact ⟨hq.trans hs, hh.trans hin.head, List.mem_cons_of_mem _ hb⟩
          · rw [if_neg hoff] at hcopy
            cases hcopy
      · rw [if_neg hlt] at hcopy
        obtain ⟨rfl, rfl⟩ := Prod.mk.inj (Option.some.inj hcopy)
        exact ⟨rb.memcpy_outside _ (by omega) (by omega), rfl, List.mem_cons_self⟩

/-- What a copy of a chain's data makes of the block it goes to. -/
structure Copied (rb rb' : Ring) (dst : ℕ) (i : ℤ) : Prop where
  inside : Inside rb rb' dst
  id : rb'.id dst = i
  next : rb'.next dst = rb.next dst
  offset : rb'.offset dst = rb.offset dst

theorem Tiled.copy_spec (h : rb.Tiled l) {dst : ℕ} {skip : ℤ} (hdst : dst ∈ l) (hw : rb.Whole dst)
    (hc : Chain rb i (some o) c) (hsub : ∀ x ∈ c, x ∈ l) (hnot : dst ∉ c) (hi : Memory.IsInt i)
    (hcopy : rb.ringbuffer_copy o skip dst = some rb') : Copied rb rb' dst i := by
  obtain ⟨-, -, -, hle, -, -, -⟩ := h.block hdst
  have h16 := (h.whole hdst).mp hw
  have hloop : ∀ (fuel o : ℕ) (c : List ℕ) (length skip : ℤ), Chain rb i (some o) c →
      (∀ x ∈ c, x ∈ l) → dst ∉ c →
      rb.copyFrom dst (rb.length dst - sizeofBlock) fuel o length skip = some rb' →
      Copied rb rb' dst i := by
    intro fuel
    induction fuel with
    | zero =>
      intro o c length skip _ _ _ hcopy
      cases hcopy
    | succ fuel ih =>
      intro o c length skip hc hsub hnot hcopy
      rw [Ring.copyFrom] at hcopy
      by_cases hskip : skip < length
      · rw [if_pos hskip] at hcopy
        obtain ⟨⟨q, b⟩, hq, rfl⟩ := Option.map_eq_some_iff.mp hcopy
        obtain ⟨hs, hh, hb⟩ := h.copyPieces_inside hdst hw hc hsub hnot (by unfold sizeofBlock; omega)
          (by omega) (by unfold sizeofBlock; omega) hq
        have hin : Inside rb q dst := ⟨hs.mono (by omega) le_rfl, hh⟩
        have hqt := h.inside hin hdst
        have hqw : q.Whole dst := by
          unfold Whole at hw ⊢
          rwa [hin.length]
        have hbid : q.id b = i := by
          obtain ⟨hbw, hbid⟩ := hc.mem hb
          have hne : b ≠ dst := by
            rintro rfl
            exact hnot hb
          exact ((h.sameBlock hin hdst (hsub b hb) hne).header h (hsub b hb) hbw).2.1.trans hbid
        show Copied rb (q.setId dst (q.id b)) dst i
        rw [hbid]
        refine ⟨hin.trans (hqt.inside_setId hdst hqw i), q.setId_id dst hi, ?_, ?_⟩
        · rw [setId_next]
          exact hs.field (by omega)
        · rw [setId_offset]
          exact hs.field (by omega)
      · rw [if_neg hskip] at hcopy
        cases hc with
        | @cons o c how hoid hrest =>
          cases hn : rb.follow o with
          | none =>
            rw [hn] at hcopy
            cases hcopy
          | some next =>
            rw [hn] at hcopy hrest
            dsimp only at hcopy
            by_cases hoff : rb.offset next = 0
            · rw [if_pos hoff] at hcopy
              exact ih _ c _ _ hrest (fun x hx => hsub x (List.mem_cons_of_mem _ hx))
                (fun hm => hnot (List.mem_cons_of_mem _ hm)) hcopy
            · rw [if_neg hoff] at hcopy
              cases hcopy
  exact hloop _ _ _ _ _ hc hsub hnot hcopy

end Ring

end DnServer.Gate
