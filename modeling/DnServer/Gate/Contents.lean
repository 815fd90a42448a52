import DnServer.Gate.Holding
import DnServer.Lib.Pieces

/-!
# The bytes of a chain

Each block of a chain holds a piece of what was received. The operations of its owner
add a piece behind the others, tell where a stretch lies when it is in one piece, and copy
it into one block when it is not. What others do leaves the pieces as they are, and each
byte at its address.
-/

namespace DnServer.Gate

open DnServer.Lib

namespace Ring

variable {rb rb' : Ring} {l c t : List ℕ} {o x blk dst fuel : ℕ} {i n v size skip : ℤ}
  {node temp : Option ℕ}

/-- The bytes of a block that are left, each with its address. -/
def segment (rb : Ring) (o : ℕ) : List (ℕ × UInt8) :=
  rb.mem.cells (o + 16 + rb.offset o).toNat (rb.length o - sizeofBlock - rb.offset o).toNat

def segments (rb : Ring) (c : List ℕ) : List (List (ℕ × UInt8)) := c.map rb.segment

/-- The bytes of some pieces. -/
def bytesOf (S : List (List (ℕ × UInt8))) : List UInt8 := S.flatten.map Prod.snd

theorem bytesOf_append (S T : List (List (ℕ × UInt8))) : bytesOf (S ++ T) = bytesOf S ++ bytesOf T := by
  unfold bytesOf
  rw [List.flatten_append, List.map_append]

theorem bytesOf_cons (x : List (ℕ × UInt8)) (S : List (List (ℕ × UInt8))) :
    bytesOf (x :: S) = x.map Prod.snd ++ bytesOf S := bytesOf_append [x] S |>.trans (by simp [bytesOf])

theorem length_bytesOf (S : List (List (ℕ × UInt8))) : (bytesOf S).length = S.flatten.length :=
  List.length_map _

@[simp]
theorem segments_nil (rb : Ring) : rb.segments [] = [] := rfl

theorem segments_cons (rb : Ring) (o : ℕ) (c : List ℕ) :
    rb.segments (o :: c) = rb.segment o :: rb.segments c := rfl

theorem segments_append (rb : Ring) (c t : List ℕ) :
    rb.segments (c ++ t) = rb.segments c ++ rb.segments t := List.map_append

theorem length_segment (rb : Ring) (o : ℕ) :
    (rb.segment o).length = (rb.length o - sizeofBlock - rb.offset o).toNat := Memory.length_cells ..

theorem Filled.length_segments (h : rb.Filled c) :
    ((rb.segments c).flatten.length : ℤ) = rb.stored c := by
  induction c with
  | nil => rfl
  | cons o c ih =>
    have hfirst := h.1
    have hrest := ih h.tail
    rw [segments_cons, List.flatten_cons, List.length_append, length_segment, stored_cons,
      Nat.cast_add, hrest, Int.toNat_of_nonneg (by omega)]

theorem Filled.offset_nonneg (h : rb.Filled c) (ho : o ∈ c) : 0 ≤ rb.offset o := by
  cases c with
  | nil => cases ho
  | cons b c =>
    rcases List.mem_cons.mp ho with rfl | ho
    · exact h.1.1
    · exact (h.2 o ho).1.ge

/-! ## Data that stays -/

/-- The data of the block is the same. -/
structure SameData (rb rb' : Ring) (o : ℕ) : Prop where
  offset : rb'.offset o = rb.offset o
  length : rb'.length o = rb.length o
  mem : ∀ k, o + 16 ≤ k → k < o + rb.span o → rb'.mem k = rb.mem k

theorem SameData.span (h : SameData rb rb' o) : rb'.span o = rb.span o := by
  unfold Ring.span
  rw [h.length]

theorem SameData.trans {rb'' : Ring} (h : SameData rb rb' o) (h' : SameData rb' rb'' o) :
    SameData rb rb'' o where
  offset := h'.offset.trans h.offset
  length := h'.length.trans h.length
  mem k hk hlt := (h'.mem k hk (by rw [h.span]; exact hlt)).trans (h.mem k hk hlt)

theorem Tiled.same_data (h : rb.Tiled l) (ho : o ∈ l) (hw : rb.Whole o) (hs : SameBlock rb rb' o) :
    SameData rb rb' o := by
  obtain ⟨hoff, hlen⟩ := h.same_fields ho hw hs
  exact ⟨hoff, hlen, fun k hk hlt => hs k (by omega) hlt⟩

/-- Changing the owner of a block leaves the data of every block. -/
theorem Tiled.setId_data (h : rb.Tiled l) (ho : o ∈ l) (hw : rb.Whole o) (hx : x ∈ l)
    (hxw : rb.Whole x) (v : ℤ) : SameData rb (rb.setId o v) x := by
  by_cases hxo : x = o
  · subst hxo
    exact ⟨rb.setId_offset x v, rb.setId_length x v, fun k hk _ => Memory.putInt_outside (by omega)⟩
  · exact h.same_data hx hxw (h.sameBlock (h.inside_setId ho hw v) ho hx hxo)

theorem Tiled.setNext_data (h : rb.Tiled l) (ho : o ∈ l) (hw : rb.Whole o) (hx : x ∈ l)
    (hxw : rb.Whole x) (v : ℤ) : SameData rb (rb.setNext o v) x := by
  by_cases hxo : x = o
  · subst hxo
    exact ⟨Memory.getInt_putInt_of_disjoint (by omega), rb.setNext_length x v,
      fun k hk _ => Memory.putInt_outside (by omega)⟩
  · exact h.same_data hx hxw (h.sameBlock (h.inside_setNext ho hw v) ho hx hxo)

/-- Linking leaves the data of every block. -/
theorem Tiled.link_data (h : rb.Tiled l) (hc : Chain rb i (some o) c) (hsub : ∀ x ∈ c, x ∈ l)
    (hblk : blk ∈ l) (hw : rb.Whole blk) (hl : rb.ringbuffer_link o blk = some rb')
    (hx : x ∈ l) (hxw : rb.Whole x) : SameData rb rb' x := by
  obtain ⟨b, hlast, rfl⟩ := Option.map_eq_some_iff.mp hl
  obtain ⟨d, rfl⟩ := hc.last_spec hlast
  have hb : b ∈ l := hsub b (by simp)
  have hq := h.inside (h.inside_setId hblk hw (rb.id b)) hblk
  have hwhole : ∀ y ∈ l, rb.Whole y → (rb.setId blk (rb.id b)).Whole y := by
    intro y hy hyw
    unfold Whole at hyw ⊢
    rwa [(h.setId_fields hblk hw hy hyw _).2]
  exact (h.setId_data hblk hw hx hxw _).trans
    (hq.setNext_data hb (hwhole b hb (hc.mem (by simp)).1) hx (hwhole x hx hxw) blk)

theorem Tiled.segment_same (h : rb.Tiled l) (ho : o ∈ l) (hoff : 0 ≤ rb.offset o)
    (hs : SameData rb rb' o) : rb'.segment o = rb.segment o := by
  have hblock := h.block ho
  unfold segment
  rw [hs.offset, hs.length]
  unfold sizeofBlock
  exact Memory.cells_congr fun k hk => hs.mem _ (by omega) (by omega)

theorem Tiled.segments_same (h : rb.Tiled l) (hsub : ∀ o ∈ c, o ∈ l) (hfill : rb.Filled c)
    (hs : ∀ o ∈ c, SameData rb rb' o) : rb'.segments c = rb.segments c := by
  refine List.map_congr_left fun o ho => ?_
  exact h.segment_same (hsub o ho) (hfill.offset_nonneg ho) (hs o ho)

/-- The bytes of a chain are those of its blocks. -/
theorem Held.segments_same (h : Held rb l i node temp c t) (ht : rb.Tiled l)
    (hsame : ∀ x ∈ c, SameBlock rb rb' x) : rb'.segments c = rb.segments c :=
  ht.segments_same h.sub h.filled fun x hx =>
    ht.same_data (h.sub x hx) (h.chain.mem hx).1 (hsame x hx)

theorem Held.segments_apart {d : List ℕ} (h : Held rb l i node temp c t) (ht : rb.Tiled l)
    (hap : Apart rb rb' l d) (hdisj : ∀ x ∈ c, x ∉ d) : rb'.segments c = rb.segments c :=
  h.segments_same ht fun x hx => hap.same x (h.sub x hx) (hdisj x hx)

/-! ## Pieces that come -/

theorem Held.segments_first (h : Held rb l i none temp c t) (ht : rb.Tiled l) (hblk : blk ∈ l)
    (hf : rb.Fresh n blk) (hn : 0 < n) :
    (rb.setId blk i).segments [blk] = rb.segments c ++ [rb.segment blk] := by
  have hnil : c = [] := by
    cases h.chain
    rfl
  have hw := hf.whole hn.le
  have hseg := ht.segment_same hblk hf.offset.ge (ht.setId_data hblk hw hblk hw i)
  rw [hnil, segments_cons, segments_nil, segments_nil, List.nil_append, hseg]

theorem Held.segments_append (h : Held rb l i (some o) temp c t) (ht : rb.Tiled l) (hblk : blk ∈ l)
    (hf : rb.Fresh n blk) (hn : 0 < n) (hl : rb.ringbuffer_link o blk = some rb') :
    rb'.segments (c ++ [blk]) = rb.segments c ++ [rb.segment blk] := by
  have hw := hf.whole hn.le
  have hdata : ∀ x ∈ l, rb.Whole x → SameData rb rb' x := fun x hx hxw =>
    ht.link_data h.chain h.sub hblk hw hl hx hxw
  have hseg := ht.segment_same hblk hf.offset.ge (hdata blk hblk hw)
  rw [Ring.segments_append, segments_cons, segments_nil, hseg,
    ht.segments_same h.sub h.filled fun x hx => hdata x (h.sub x hx) (h.chain.mem hx).1]

/-! ## Where a stretch is -/

/-- `ringbuffer_data` tells where a stretch is just when it is in one piece. -/
theorem Chain.dataFrom_piece {p : Option ℤ} (hc : Chain rb i (some o) (o :: c))
    (hfill : rb.Filled (o :: c)) (hsize : 0 ≤ size) (hskip : 0 ≤ skip)
    (hrun : rb.dataFrom size fuel o (rb.length o - sizeofBlock - rb.offset o) skip = some (v, p)) :
    Pieces.piece size.toNat skip.toNat (rb.segments (o :: c)) =
      p.map fun ptr => rb.mem.cells ptr.toNat size.toNat := by
  induction fuel generalizing o c skip with
  | zero => cases hrun
  | succ fuel ih =>
    have hfirst := hfill.1
    have hlen := rb.length_segment o
    rw [Ring.dataFrom] at hrun
    rw [segments_cons]
    by_cases hlt : skip < rb.length o - sizeofBlock - rb.offset o
    · rw [if_pos hlt] at hrun
      rw [Pieces.piece_cons_of_lt (by omega)]
      by_cases hle : size ≤ rb.length o - sizeofBlock - rb.offset o - skip
      · rw [if_pos hle] at hrun
        cases hrun
        rw [if_pos (by omega)]
        unfold segment
        rw [Memory.drop_cells, Memory.take_cells (by omega), Option.map_some]
        unfold sizeofBlock
        congr 2
        omega
      · rw [if_neg hle] at hrun
        obtain ⟨ret, -, heq⟩ := Option.map_eq_some_iff.mp hrun
        cases heq
        rw [if_neg (by omega)]
        rfl
    · rw [if_neg hlt] at hrun
      rw [Pieces.piece_cons_of_le (by omega)]
      cases hc with
      | cons hw hid hchain =>
        cases hf : rb.follow o with
        | none =>
          rw [hf] at hchain hrun
          cases hchain
          dsimp only at hrun
          split at hrun
          · cases hrun
            rfl
          · cases hrun
        | some next =>
          rw [hf] at hchain hrun
          obtain ⟨c', rfl⟩ : ∃ c', c = next :: c' := by
            cases hchain with
            | cons _ _ _ => exact ⟨_, rfl⟩
          obtain ⟨hoff, -⟩ := hfill.2 next List.mem_cons_self
          dsimp only at hrun
          rw [if_pos hoff, show rb.length next - sizeofBlock =
            rb.length next - sizeofBlock - rb.offset next by rw [hoff, sub_zero]] at hrun
          rw [← ih hchain hfill.tail (by omega) hrun]
          congr 1
          omega

theorem Held.data_piece {p : Option ℤ} (h : Held rb l i (some o) temp c t) (hsize : 0 ≤ size)
    (hskip : 0 ≤ skip) (hrun : rb.ringbuffer_data o size skip = some (v, p)) :
    Pieces.piece size.toNat skip.toNat (rb.segments c) =
      p.map fun ptr => rb.mem.cells ptr.toNat size.toNat := by
  obtain ⟨c', rfl⟩ : ∃ c', c = o :: c' := by
    cases h.chain with
    | cons _ _ _ => exact ⟨_, rfl⟩
  exact h.chain.dataFrom_piece h.filled hsize hskip hrun

/-! ## Pieces that are copied -/

/-- The loop that copies puts the stretch where it is told to. -/
theorem Tiled.copyPieces_bytes (h : rb.Tiled l) {b : ℕ} {ptr src length : ℤ}
    (hdst : dst ∈ l) (hw : rb.Whole dst) (hc : Chain rb i (some o) (o :: c))
    (hsub : ∀ x ∈ o :: c, x ∈ l) (hnot : dst ∉ o :: c)
    (hrest : ∀ x ∈ c, rb.offset x = 0 ∧ sizeofBlock < rb.length x) (hptr : dst + 16 ≤ ptr)
    (hlen : 0 ≤ length) (hend : ptr + size ≤ dst + rb.span dst)
    (hcopy : rb.copyPieces fuel ptr src length size o = some (rb', b)) :
    SameOutside rb rb' ptr.toNat (dst + rb.span dst) ∧
      rb'.mem.bytes ptr.toNat size.toNat =
        (rb.mem.bytes src.toNat length.toNat ++ bytesOf (rb.segments c)).take size.toNat := by
  have h16 : 16 ≤ rb.span dst := by
    have := h.block hdst
    have := (h.whole hdst).mp hw
    omega
  induction fuel generalizing rb o c ptr src length size with
  | zero => cases hcopy
  | succ fuel ih =>
    rw [Ring.copyPieces] at hcopy
    have hwritten : ∀ k : ℤ, (rb.memcpy ptr src k).mem.bytes ptr.toNat k.toNat =
        rb.mem.bytes src.toNat k.toNat := by
      intro k
      have := Memory.bytes_putBytes rb.mem ptr.toNat (rb.mem.bytes src.toNat k.toNat)
      rwa [Memory.length_bytes] at this
    have hout : ∀ k : ℤ, 0 ≤ k → k ≤ size →
        SameOutside rb (rb.memcpy ptr src k) ptr.toNat (dst + rb.span dst) := fun k hk hle =>
      rb.memcpy_outside src (by omega) (by omega)
    by_cases hlt : length < size
    · rw [if_pos hlt] at hcopy
      have hq := hout length hlen hlt.le
      have hin : Inside rb (rb.memcpy ptr src length) dst := ⟨hq.mono (by omega) le_rfl, rfl⟩
      have hqt := h.inside hin hdst
      have hother : ∀ x ∈ o :: c, SameBlock rb (rb.memcpy ptr src length) x := by
        intro x hx
        apply h.sameBlock hin hdst (hsub x hx)
        rintro rfl
        exact hnot hx
      cases hc with
      | cons how hoid hchain =>
        have hfollow : (rb.memcpy ptr src length).follow o = rb.follow o := by
          unfold follow
          rw [((hother o List.mem_cons_self).header h (hsub o List.mem_cons_self) how).2.2.1]
        dsimp only at hcopy
        rw [hfollow] at hcopy
        cases hn : rb.follow o with
        | none =>
          rw [hn] at hcopy
          cases hcopy
        | some next =>
          rw [hn] at hcopy hchain
          obtain ⟨c', rfl⟩ : ∃ c', c = next :: c' := by
            cases hchain with
            | cons _ _ _ => exact ⟨_, rfl⟩
          have hcl : ∀ x ∈ next :: c', x ∈ l := fun x hx => hsub x (List.mem_cons_of_mem _ hx)
          have hfields : ∀ x ∈ next :: c', SameData rb (rb.memcpy ptr src length) x := fun x hx =>
            h.same_data (hcl x hx) (hchain.mem hx).1 (hother x (List.mem_cons_of_mem _ hx))
          have hfill : rb.Filled (next :: c') := by
            obtain ⟨h1, h2⟩ := hrest next List.mem_cons_self
            exact ⟨⟨h1.ge, by omega⟩, fun x hx => hrest x (List.mem_cons_of_mem _ hx)⟩
          obtain ⟨hoff, hbig⟩ := hrest next List.mem_cons_self
          have hnextd := hfields next List.mem_cons_self
          dsimp only at hcopy
          rw [if_pos (hnextd.offset.trans hoff)] at hcopy
          have hdw : (rb.memcpy ptr src length).Whole dst := by
            unfold Whole at hw ⊢
            rwa [hin.length]
          obtain ⟨hsame, hbytes⟩ := ih hqt hdw
            (hchain.same h hcl fun x hx => hother x (List.mem_cons_of_mem _ hx)) hcl
            (fun hm => hnot (List.mem_cons_of_mem _ hm))
            (fun x hx => by
              have hx' := hfields x (List.mem_cons_of_mem _ hx)
              rw [hx'.offset, hx'.length]
              exact hrest x (List.mem_cons_of_mem _ hx))
            (by omega) (by rw [hnextd.length]; omega) (by rw [hin.span]; omega) hcopy
            (by rw [hin.span]; exact h16)
          rw [hin.span] at hsame
          refine ⟨hq.trans (hsame.mono (by omega) le_rfl), ?_⟩
          -- the piece that was copied first stays in front of the others
          have hfront : rb'.mem.bytes ptr.toNat length.toNat =
              rb.mem.bytes src.toNat length.toNat := by
            rw [← hwritten length]
            exact Memory.bytes_congr fun k hk => hsame.mem _ (by omega)
          have hsegs := h.segments_same hcl hfill hfields
          have hnextb : (rb.memcpy ptr src length).mem.bytes ((next : ℤ) + sizeofBlock).toNat
              ((rb.memcpy ptr src length).length next - sizeofBlock).toNat =
                (rb.segment next).map Prod.snd := by
            rw [← h.segment_same (hcl next List.mem_cons_self) hoff.ge hnextd]
            unfold segment
            rw [hnextd.offset, hoff, sub_zero, add_zero, Memory.map_snd_cells]
            rfl
          have hrestb : (rb.memcpy ptr src length).segments c' = rb.segments c' := by
            rw [segments_cons, segments_cons] at hsegs
            exact (List.cons.inj hsegs).2
          rw [show (ptr + length).toNat = ptr.toNat + length.toNat by omega,
            show (size - length).toNat = size.toNat - length.toNat by omega, hnextb, hrestb,
            ← bytesOf_cons, ← segments_cons] at hbytes
          have hjoin : (rb.mem.bytes src.toNat length.toNat ++
              bytesOf (rb.segments (next :: c'))).take (length.toNat + (size.toNat - length.toNat)) =
                rb.mem.bytes src.toNat length.toNat ++
                  (bytesOf (rb.segments (next :: c'))).take (size.toNat - length.toNat) := by
            have := @List.take_length_add_append _ (rb.mem.bytes src.toNat length.toNat)
              (bytesOf (rb.segments (next :: c'))) (size.toNat - length.toNat)
            rwa [Memory.length_bytes] at this
          rw [show size.toNat = length.toNat + (size.toNat - length.toNat) by omega,
            Memory.bytes_add, hfront, hbytes, hjoin]
    · rw [if_neg hlt] at hcopy
      obtain ⟨rfl, rfl⟩ := Prod.mk.inj (Option.some.inj hcopy)
      rcases le_or_gt 0 size with hsize | hneg
      · refine ⟨hout size hsize le_rfl, ?_⟩
        rw [hwritten, List.take_append_of_le_length (by rw [Memory.length_bytes]; omega),
          Memory.take_bytes, Nat.min_eq_left (by omega)]
      · have hzero : size.toNat = 0 := by omega
        refine ⟨⟨rfl, fun k _ => ?_⟩, by rw [hzero, List.take_zero, Memory.bytes_zero]⟩
        unfold memcpy
        rw [hzero, Memory.bytes_zero]
        exact Memory.putBytes_outside (by rw [List.length_nil]; omega)

/-- A copy holds the bytes behind those that are skipped. -/
theorem Tiled.copy_bytes (h : rb.Tiled l) (hdst : dst ∈ l) (hw : rb.Whole dst)
    (hc : Chain rb i (some o) c) (hsub : ∀ x ∈ c, x ∈ l) (hfill : rb.Filled c) (hnot : dst ∉ c)
    (hskip : 0 ≤ skip) (hcopy : rb.ringbuffer_copy o skip dst = some rb') :
    rb'.mem.bytes (dst + 16) (rb.length dst - sizeofBlock).toNat =
      ((bytesOf (rb.segments c)).drop skip.toNat).take (rb.length dst - sizeofBlock).toNat := by
  obtain ⟨-, -, -, hle, -, -, -⟩ := h.block hdst
  -- the loop that looks for the block in which the copy begins, by induction over the chain
  have hloop : ∀ (fuel o : ℕ) (c : List ℕ) (skip : ℤ), Chain rb i (some o) c →
      (∀ x ∈ c, x ∈ l) → rb.Filled c → dst ∉ c → 0 ≤ skip →
      rb.copyFrom dst (rb.length dst - sizeofBlock) fuel o
        (rb.length o - sizeofBlock - rb.offset o) skip = some rb' →
      rb'.mem.bytes (dst + 16) (rb.length dst - sizeofBlock).toNat =
        ((bytesOf (rb.segments c)).drop skip.toNat).take (rb.length dst - sizeofBlock).toNat := by
    intro fuel
    induction fuel with
    | zero =>
      intro o c skip _ _ _ _ _ hcopy
      cases hcopy
    | succ fuel ih =>
      intro o c skip hc hsub hfill hnot hskip hcopy
      obtain ⟨c, rfl⟩ : ∃ c', c = o :: c' := by
        cases hc with
        | cons _ _ _ => exact ⟨_, rfl⟩
      have hlen := rb.length_segment o
      have hfirst := hfill.1
      rw [Ring.copyFrom] at hcopy
      rw [segments_cons, bytesOf_cons, List.drop_append, ← List.map_drop, List.length_map]
      by_cases hlt : skip < rb.length o - sizeofBlock - rb.offset o
      · rw [if_pos hlt] at hcopy
        obtain ⟨⟨q, b⟩, hq, rfl⟩ := Option.map_eq_some_iff.mp hcopy
        obtain ⟨-, hbytes⟩ := h.copyPieces_bytes hdst hw hc hsub hnot hfill.2
          (by unfold sizeofBlock; omega) (by omega) (by unfold sizeofBlock; omega) hq
        rw [show ((dst : ℤ) + sizeofBlock).toNat = dst + 16 by unfold sizeofBlock; omega] at hbytes
        have hid : (q.setId dst (q.id b)).mem.bytes (dst + 16) (rb.length dst - sizeofBlock).toNat =
            q.mem.bytes (dst + 16) (rb.length dst - sizeofBlock).toNat :=
          Memory.bytes_congr fun k _ => Memory.putInt_outside (by omega)
        rw [hid, hbytes]
        congr 2
        · unfold segment
          rw [Memory.drop_cells, Memory.map_snd_cells]
          unfold sizeofBlock
          congr 1 <;> omega
        · rw [Nat.sub_eq_zero_of_le (by omega), List.drop_zero]
      · rw [if_neg hlt] at hcopy
        have hgone : (rb.segment o).drop skip.toNat = [] := List.drop_eq_nil_of_le (by omega)
        cases hc with
        | cons how hoid hchain =>
          cases hn : rb.follow o with
          | none =>
            rw [hn] at hcopy
            cases hcopy
          | some next =>
            rw [hn] at hcopy hchain
            have hnext : next ∈ c := by
              cases hchain with
              | cons _ _ _ => exact List.mem_cons_self
            obtain ⟨hoff, -⟩ := hfill.2 next hnext
            dsimp only at hcopy
            rw [if_pos hoff, show rb.length next - sizeofBlock =
              rb.length next - sizeofBlock - rb.offset next by rw [hoff, sub_zero]] at hcopy
            rw [ih next c _ hchain (fun x hx => hsub x (List.mem_cons_of_mem _ hx)) hfill.tail
              (fun hm => hnot (List.mem_cons_of_mem _ hm)) (by omega) hcopy, hgone,
              List.map_nil, List.nil_append]
            congr 2
            omega
  exact hloop _ _ _ _ hc hsub hfill hnot hskip hcopy

/-- The block that a piece of the chain is copied to, and the chain. -/
theorem Held.segments_copied {q : Ring}
    (hl : (match temp with
      | some old => (rb.setId blk i).ringbuffer_link blk old
      | none => some (rb.setId blk i)) = some q)
    (hcopy : q.ringbuffer_copy o skip blk = some rb') (h : Held rb l i (some o) temp c t)
    (ht : rb.Tiled l) (hi : 0 ≤ i) (hint : Memory.IsInt i) (hblk : blk ∈ l) (hf : rb.Fresh n blk)
    (hn : 0 ≤ n) (hskip : 0 ≤ skip) :
    rb'.segments c = rb.segments c ∧ rb'.length blk = sizeofBlock + n ∧
      rb'.mem.bytes (blk + 16) n.toNat =
        ((bytesOf (rb.segments c)).drop skip.toNat).take n.toNat := by
  obtain ⟨hnot, -⟩ := hf.not_held hi h
  obtain ⟨hboth, hchain, hlen⟩ := h.made hl ht hi hint hblk hf hn
  have hdisj : ∀ x ∈ c, x ∉ blk :: t := by
    intro x hx hm
    rcases List.mem_cons.mp hm with rfl | hm
    · exact hnot hx
    · exact h.apart x hx hm
  have hqw : q.Whole blk := (hchain.mem List.mem_cons_self).1
  have hdata := h.chain.apart ht h.sub hboth hdisj
  have hfill : q.Filled c := h.filled.congr (h.chain.fields ht h.sub hboth hdisj)
  have hcopied := hboth.tiled.copy_spec hblk hqw hdata h.sub hnot hint hcopy
  have hall : Apart rb rb' l (blk :: t) :=
    hboth.trans ht ((hboth.tiled.apart_inside hblk hcopied.inside).mono (by simp))
  have hbytes := hboth.tiled.copy_bytes hblk hqw hdata h.sub hfill hnot hskip hcopy
  rw [hlen, add_sub_cancel_left, h.segments_apart ht hboth hdisj] at hbytes
  exact ⟨h.segments_apart ht hall hdisj, hcopied.inside.length.trans hlen, hbytes⟩

end Ring

end DnServer.Gate
