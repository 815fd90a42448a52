import DnServer.Gate.Reading

/-!
# Where pulled bytes are

A callback may pull several parts of what a slot has, and look at the first ones when the
later ones are there: the pointers it was given have to stay good.

* `Pool.Front.pull`: a pull that gives a pointer leaves the parts that were pulled before it
  where they were, and gives a place that none of them has. A part is among the bytes of the
  slot, which a pull only adds to, or in a copy; and once a copy was made the slot has read,
  so that nothing is written any more before it is yielded.
* `Pool.Sound.rewrite`: writing over the data of a block leaves the ring in order, as its
  headers say all that the invariant is about.
-/

namespace DnServer.Gate

open DnServer.Lib

namespace Ring

variable {rb : Ring} {l c t : List ℕ} {o o' a k n i : ℕ} {j : ℤ} {node temp : Option ℕ}
  {x : ℕ × UInt8}

/-- An address is in one block only. -/
theorem Tiled.block_unique (h : rb.Tiled l) (ho : o ∈ l) (ho' : o' ∈ l)
    (ha : o ≤ a ∧ a < o + rb.span o) (ha' : o' ≤ a ∧ a < o' + rb.span o') : o = o' := by
  rcases Nat.lt_trichotomy o o' with hlt | heq | hlt
  · have := h.tiles.disjoint ho ho' hlt
    omega
  · exact heq
  · have := h.tiles.disjoint ho' ho hlt
    omega

/-- The bytes of a block are behind its header. -/
theorem Tiled.mem_segment (h : rb.Tiled l) (ho : o ∈ l) (hoff : 0 ≤ rb.offset o)
    (hx : x ∈ rb.segment o) : rb.mem x.1 = x.2 ∧ o + 16 ≤ x.1 ∧ x.1 < o + rb.span o := by
  unfold segment at hx
  obtain ⟨hle, hlt, hmem⟩ := Memory.mem_cells.mp hx
  have hblock := h.block ho
  unfold sizeofBlock at hlt
  exact ⟨hmem, by omega, by omega⟩

theorem Held.mem_segments (h : Held rb l j node temp c t) (ht : rb.Tiled l)
    (hx : x ∈ (rb.segments c).flatten) :
    rb.mem x.1 = x.2 ∧ ∃ o ∈ c, o + 16 ≤ x.1 ∧ x.1 < o + rb.span o := by
  obtain ⟨s, hs, hx⟩ := List.mem_flatten.mp hx
  obtain ⟨o, ho, rfl⟩ := List.mem_map.mp hs
  obtain ⟨hmem, hle, hlt⟩ := ht.mem_segment (h.sub o ho) (h.filled.offset_nonneg ho) hx
  exact ⟨hmem, o, ho, hle, hlt⟩

/-- No address comes twice. -/
theorem Held.places_nodup (h : Held rb l j node temp c t) (ht : rb.Tiled l) :
    ((rb.segments c).flatten.map Prod.fst).Nodup := by
  rw [List.map_flatten, List.nodup_flatten]
  refine ⟨fun s hs => ?_, ?_⟩
  · obtain ⟨y, hy, rfl⟩ := List.mem_map.mp hs
    obtain ⟨o, -, rfl⟩ := List.mem_map.mp hy
    unfold segment
    rw [Memory.map_fst_cells]
    exact List.nodup_range'
  · unfold segments
    rw [List.map_map, List.pairwise_map]
    refine List.Pairwise.imp_of_mem (fun {o o'} ho ho' hne a ha ha' => ?_) h.chain.nodup
    obtain ⟨y, hy, rfl⟩ := List.mem_map.mp ha
    obtain ⟨y', hy', heq⟩ := List.mem_map.mp ha'
    have hin := (ht.mem_segment (h.sub o ho) (h.filled.offset_nonneg ho) hy).2
    have hin' := (ht.mem_segment (h.sub o' ho') (h.filled.offset_nonneg ho') hy').2
    exact hne (ht.block_unique (h.sub o ho) (h.sub o' ho') (a := y.1) ⟨by omega, hin.2⟩
      ⟨by omega, by omega⟩)

end Ring

namespace Pool

variable {self self' : Pool} {l : List ℕ} {id k n a k' n' a' : ℕ} {size ptr : ℤ}
  {env : List ReadResult} {S : List UInt8}

/-- A byte that is among those of the slot is where it says. -/
theorem address_of_cells {L : List (ℕ × UInt8)} {m : Memory} {i : ℕ}
    (h : m.cells a n = (L.drop k).take n) (hi : i < n) :
    (L.map Prod.fst)[k + i]? = some (a + i) := by
  have hat := congrArg (fun x => (x.map Prod.fst)[i]?) h
  rw [Memory.map_fst_cells, List.getElem?_range' hi, List.map_take, List.getElem?_take_of_lt hi,
    List.map_drop, List.getElem?_drop, one_mul] at hat
  exact hat.symm

/-- Two parts of the bytes do not share a place, if one of them is not a copy. -/
theorem Sound.lies_apart (h : self.Sound l) (hactive : self.active = some id)
    (hopen : (self.sockets id).status.isOpen = true)
    (hcells : self.rb.mem.cells a n = ((self.contents id).flatten.drop k).take n)
    (hlies : self.Lies id k' n' a') (hpos : k + n ≤ k' ∨ k' + n' ≤ k) :
    ∀ i < n, ∀ j < n', a + i ≠ a' + j := by
  obtain ⟨c, t, hheld, -⟩ := h.active_held hactive (Socket.isOpen_alive hopen)
  have hnodup := hheld.places_nodup h.tiled
  rw [← h.contents_eq hheld] at hnodup
  intro i hi j hj heq
  have hat := address_of_cells hcells hi
  rcases hlies.place with hcells' | ⟨-, blk, htemp, rfl, hlen⟩
  · have hat' := address_of_cells hcells' hj
    have hlt : k + i < ((self.contents id).flatten.map Prod.fst).length := by
      by_contra hno
      rw [List.getElem?_eq_none (by omega)] at hat
      cases hat
    have hsame := (List.getElem?_inj hlt hnodup).mp (hat.trans (by rw [heq, hat']))
    omega
  · -- the other is a copy, in a block of its own
    obtain ⟨x, hx, hxa⟩ := List.mem_map.mp (List.mem_of_getElem? hat)
    rw [h.contents_eq hheld] at hx
    obtain ⟨-, o, ho, hle, hlt⟩ := hheld.mem_segments h.tiled hx
    have hblk : blk ∈ t := by
      have hcopies := hheld.copies
      rw [htemp] at hcopies
      cases hcopies with
      | cons _ _ _ => exact List.mem_cons_self
    have hspan := (h.tiled.block (hheld.copies_sub blk hblk)).2.2.2.1
    rw [h.tiled.block_unique (hheld.sub o ho) (hheld.copies_sub blk hblk) (a := x.1)
      ⟨by omega, hlt⟩ ⟨by omega, by omega⟩] at ho
    exact hheld.apart blk ho hblk

/-! ## Pulls -/

/-- What the reads of a callback bring. -/
def brought : List ReadResult → List UInt8
  | .bytes data :: _ => data
  | .EINTR :: env => brought env
  | _ => []

theorem answer_brought {rd : ℤ} {data : List UInt8} (h : answer rd env = .bytes data) :
    data <+: brought env := by
  induction env with
  | nil => cases h
  | cons e env ih =>
    cases e with
    | EINTR => exact ih h
    | bytes d =>
      obtain rfl := ReadResult.bytes.inj h
      exact List.take_prefix _ _
    | EWOULDBLOCK => cases h
    | failed => cases h

/-- Slot `id` is pulled from, not for the first time; `S` is what comes on its connection from
the first byte on that is not yielded, and `env` what the callback reads. -/
structure Front (p : Pool) (id : ℕ) (S : List UInt8) (env : List ReadResult) : Prop where
  sound : ∃ l, p.Sound l
  active : p.active = some id
  isOpen : (p.sockets id).status.isOpen = true
  later : (p.sockets id).status ≠ .FIRST_POLLIN
  stream : Ring.bytesOf (p.contents id) <+: S
  coming : (p.sockets id).status = .POLLIN → Ring.bytesOf (p.contents id) ++ brought env <+: S

/-- Bytes that lie somewhere are those of the stream. -/
theorem Front.bytes (h : self.Front id S env) (hlies : self.Lies id k n a) :
    self.rb.mem.bytes a n = (S.drop k).take n := by
  obtain ⟨post, rfl⟩ := h.stream
  have hthere := hlies.there
  rw [← Ring.length_bytesOf] at hthere
  rw [hlies.bytes, List.drop_append_of_le_length (by omega),
    List.take_append_of_le_length (by rw [List.length_drop]; omega)]

theorem hears_answer {data : List UInt8} (h : self.hears size env = some (.bytes data)) :
    data <+: brought env := by
  unfold hears at h
  split at h
  · cases h
  · split at h
    · split_ifs at h
      split at h
      · exact answer_brought (Option.some.inj h)
      · cases h
    · cases h

/-- **What was pulled stays.** A pull that gives a place keeps the front of the stream and the
places of the parts before it. -/
theorem Front.pull (h : self.Front id S env) (hsize : 0 ≤ size) (hle : size ≤ 2147483628)
    (hrun : self.mread_pull size env = some (self', some ptr)) :
    self'.Front id S env ∧ self'.skip = self.skip + size ∧
      self'.Lies id self.skip.toNat size.toNat ptr.toNat ∧
      ∀ k n a, self.Lies id k n a → self'.Lies id k n a ∧
        (k + n ≤ self.skip.toNat → ∀ i < n, ∀ j < size.toNat, a + i ≠ ptr.toNat + j) := by
  obtain ⟨l, hl⟩ := h.sound
  have hpulled := hl.pull h.active hsize (hl.short_fits hsize hle id) hrun
  obtain ⟨l', hl'⟩ := hpulled.leads
  have hsound := hl'.sound
  have hactive := hpulled.active.trans h.active
  have hdrawn := hl.pull_drawn h.active h.isOpen hsize (hl.short_fits hsize hle id) hrun
  generalize hheard : self.hears size env = heard at hdrawn
  cases hdrawn with
  | found hsome hcells heq =>
    subst heq
    obtain ⟨x, hx⟩ := Option.isSome_iff_exists.mp hsome
    have hnew : Lies { self with skip := self.skip + size } id self.skip.toNat size.toNat ptr.toNat :=
      .of_cells (Pieces.piece_eq hx).2 hcells
    refine ⟨⟨⟨l', hsound⟩, hactive, h.isOpen, h.later, h.stream, h.coming⟩, rfl, hnew,
      fun k n a hlies => ⟨⟨hlies.there, hlies.bytes, hlies.place⟩, fun hbefore i hi j hj heq => ?_⟩⟩
    exact hsound.lies_apart hactive h.isOpen hcells ⟨hlies.there, hlies.bytes, hlies.place⟩
      (.inr hbefore) j hj i hi heq.symm
  | @full data s _ _ hstatus hs hcontents hnew hskip hread =>
    have hpollin := hstatus.resolve_right h.later
    have hstripped : self.stripped id data = data := by
      unfold stripped
      rw [if_neg h.later]
      exact List.drop_zero
    have hopen : (self'.sockets id).status.isOpen = true := by rw [hread]; rfl
    have hbytes : Ring.bytesOf (self'.contents id) = Ring.bytesOf (self.contents id) ++ data := by
      rw [hcontents, Ring.bytesOf_append, Ring.bytesOf_cons, ← hstripped, ← hs]
      exact congrArg _ (List.append_nil _)
    have hfront : self'.Front id S env := by
      refine ⟨⟨l', hsound⟩, hactive, hopen, by rw [hread]; exact nofun, ?_,
        fun hno => by rw [hread] at hno; cases hno⟩
      rw [hbytes]
      exact ((List.prefix_append_right_inj _).mpr (hears_answer hheard)).trans (h.coming hpollin)
    obtain ⟨c, t, hheld, -⟩ := hsound.active_held hactive (Socket.isOpen_alive hopen)
    refine ⟨hfront, hskip, hnew, fun k n a hlies => ?_⟩
    -- no copy was made yet: the part is among the bytes of the slot
    have hcells := hlies.place.resolve_right fun hno => by
      rw [hpollin] at hno
      cases hno.1
    have hflat : (self'.contents id).flatten = (self.contents id).flatten ++ s := by
      rw [hcontents, List.flatten_append]
      exact congrArg _ (List.append_nil s)
    have hthere := hlies.there
    have hslice : ((self'.contents id).flatten.drop k).take n =
        ((self.contents id).flatten.drop k).take n := by
      rw [hflat, List.drop_append_of_le_length (by omega),
        List.take_append_of_le_length (by rw [List.length_drop]; omega)]
    have hkept : self'.rb.mem.cells a n = self.rb.mem.cells a n := by
      refine Memory.cells_congr fun i hi => ?_
      have hmem : (a + i, self.rb.mem (a + i)) ∈ self.rb.mem.cells a n :=
        Memory.mem_cells.mpr ⟨Nat.le_add_right .., Nat.add_lt_add_left hi a, rfl⟩
      rw [hcells, ← hslice] at hmem
      have hin := List.mem_of_mem_drop (List.mem_of_mem_take hmem)
      rw [hsound.contents_eq hheld] at hin
      exact (hheld.mem_segments hsound.tiled hin).1
    have hcells' := hkept.trans (hcells.trans hslice.symm)
    exact ⟨.of_cells (by rw [hflat, List.length_append]; omega) hcells', fun hbefore =>
      hsound.lies_apart hactive hopen hcells' hnew (.inl hbefore)⟩

/-! ## Writing over data -/

/-- Bytes behind the headers of blocks say nothing about the ring. -/
theorem Sound.rewrite (h : self.Sound l) (mem : Memory)
    (hmem : ∀ a, mem a ≠ self.rb.mem a → ∃ o ∈ l, o + 16 ≤ a ∧ a < o + self.rb.span o) :
    Sound { self with rb := { self.rb with mem := mem } } l := by
  have hfield : ∀ o ∈ l, ∀ f, f + 4 ≤ 16 → f + 4 ≤ self.rb.span o →
      mem.getInt (o + f) = self.rb.mem.getInt (o + f) := by
    intro o ho f hf hspan
    refine Memory.getInt_congr fun a hle hlt => ?_
    by_contra hno
    obtain ⟨o', ho', hle', hlt'⟩ := hmem a hno
    have := h.tiled.block_unique ho ho' (a := a) ⟨by omega, by omega⟩ ⟨by omega, hlt'⟩
    omega
  have hlength : ∀ o ∈ l, Ring.length { self.rb with mem := mem } o = self.rb.length o :=
    fun o ho => hfield o ho 0 (by omega) (by have := h.tiled.block ho; omega)
  have hwhole : ∀ o ∈ l, Ring.Whole { self.rb with mem := mem } o ↔ self.rb.Whole o := by
    intro o ho
    unfold Ring.Whole
    rw [hlength o ho]
  have hheader : ∀ o ∈ l, self.rb.Whole o →
      Ring.offset { self.rb with mem := mem } o = self.rb.offset o ∧
        Ring.id { self.rb with mem := mem } o = self.rb.id o ∧
        Ring.next { self.rb with mem := mem } o = self.rb.next o := by
    intro o ho hw
    have h16 := (h.tiled.whole ho).mp hw
    have hblock := h.tiled.block ho
    exact ⟨hfield o ho 4 (by omega) (by omega), hfield o ho 8 (by omega) (by omega),
      hfield o ho 12 (by omega) (by omega)⟩
  have hchain : ∀ {i : ℤ} {p : Option ℕ} {c : List ℕ}, self.rb.Chain i p c → (∀ x ∈ c, x ∈ l) →
      Ring.Chain { self.rb with mem := mem } i p c := fun hc hsub =>
    hc.congr fun o ho =>
      have hw := (hc.mem ho).1
      ⟨fun _ => (hwhole o (hsub o ho)).mpr hw, (hheader o (hsub o ho) hw).2⟩
  refine ⟨⟨h.tiled.tiles.congr fun o ho => ?_, h.tiled.head, h.tiled.room, h.tiled.bounded⟩,
    h.minimal, h.small, fun o ho hu => ?_, h.threaded, h.quiet, h.active, h.skip, fun i hi => ?_⟩
  · unfold Ring.span
    rw [hlength o ho]
  · have hw := (hwhole o ho).mp hu.1
    have hid := (hheader o ho hw).2.1
    have hpos := hu.2
    rw [hid] at hpos
    exact hid.trans_lt (h.owner o ho ⟨hw, hpos⟩)
  · obtain ⟨c, t, hheld, hskip⟩ := h.held i hi
    have hfields : ∀ x ∈ c, Ring.offset { self.rb with mem := mem } x = self.rb.offset x ∧
        Ring.length { self.rb with mem := mem } x = self.rb.length x := fun x hx =>
      ⟨(hheader x (hheld.sub x hx) (hheld.chain.mem hx).1).1, hlength x (hheld.sub x hx)⟩
    exact ⟨c, t, ⟨hchain hheld.chain hheld.sub, hchain hheld.copies hheld.copies_sub, hheld.sub,
      hheld.copies_sub, hheld.apart, hheld.filled.congr hfields⟩, fun hact =>
        (hskip hact).trans (Ring.stored_congr hfields).ge⟩

/-- Where a part is, there is data of the slot. -/
theorem Sound.lies_data (h : self.Sound l) (hactive : self.active = some id)
    (hopen : (self.sockets id).status.isOpen = true) (hlies : self.Lies id k n a) {i : ℕ}
    (hi : i < n) : ∃ o ∈ l, o + 16 ≤ a + i ∧ a + i < o + self.rb.span o := by
  obtain ⟨c, t, hheld, -⟩ := h.active_held hactive (Socket.isOpen_alive hopen)
  rcases hlies.place with hcells | ⟨-, blk, htemp, rfl, hlen⟩
  · obtain ⟨x, hx, hxa⟩ := List.mem_map.mp (List.mem_of_getElem? (address_of_cells hcells hi))
    rw [h.contents_eq hheld] at hx
    obtain ⟨-, o, ho, hle, hlt⟩ := hheld.mem_segments h.tiled hx
    exact ⟨o, hheld.sub o ho, by omega, by omega⟩
  · have hcopies := hheld.copies
    rw [htemp] at hcopies
    have hblk : blk ∈ t := by
      cases hcopies with
      | cons _ _ _ => exact List.mem_cons_self
    have hspan := (h.tiled.block (hheld.copies_sub blk hblk)).2.2.2.1
    exact ⟨blk, hheld.copies_sub blk hblk, by omega, by omega⟩

end Pool

end DnServer.Gate
