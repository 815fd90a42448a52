import DnServer.Gate.Contents
import DnServer.Gate.Reclaim

/-!
# What a pull reads

The bytes of a slot are the pieces of its chain. A pull finds a stretch that is in one
piece, or reads another piece and tells where the stretch is then: in one piece still, or
in a copy. It reads only when its slot was polled, and once; a slot that has read already
and whose stretch is not in one piece is suspended, even when all of its bytes are there.
-/

namespace DnServer.Gate

open DnServer.Lib

namespace Ring

variable {rb : Ring} {l c t : List ℕ} {i : ℤ} {p : Option ℕ} {fuel : ℕ}

/-- The blocks from `p` on. -/
def trail (rb : Ring) : ℕ → Option ℕ → List ℕ
  | 0, _ => []
  | _ + 1, none => []
  | fuel + 1, some o => o :: rb.trail fuel (rb.follow o)

theorem Chain.trail_eq (h : Chain rb i p c) (hfuel : c.length ≤ fuel) : rb.trail fuel p = c := by
  induction h generalizing fuel with
  | nil => cases fuel <;> rfl
  | cons hw hid hrest ih =>
    cases fuel with
    | zero =>
      rw [List.length_cons] at hfuel
      omega
    | succ fuel =>
      rw [trail, ih (by simpa using hfuel)]

end Ring

namespace Pool

variable {self self' : Pool} {l l' c t : List ℕ} {id blk fuel j : ℕ} {n size sz rd : ℤ}
  {env : List ReadResult}

/-- The bytes a slot has that are not yielded, in the pieces they are in. -/
def contents (self : Pool) (i : ℕ) : List (List (ℕ × UInt8)) :=
  self.rb.segments (self.rb.trail self.rb.size (self.sockets i).node)

theorem Sound.contents_eq {temp : Option ℕ} (h : self.Sound l)
    (hheld : self.rb.Held l j (self.sockets j).node temp c t) :
    self.contents j = self.rb.segments c := by
  unfold contents
  rw [hheld.chain.trail_eq (h.tiled.chain_length hheld.chain hheld.sub)]

theorem contents_congr (hrb : self'.rb = self.rb)
    (hnode : (self'.sockets j).node = (self.sockets j).node) :
    self'.contents j = self.contents j := by
  unfold contents
  rw [hrb, hnode]

theorem contents_of_none (h : (self.sockets j).node = none) : self.contents j = [] := by
  unfold contents
  rw [h]
  cases self.rb.size <;> rfl

/-! ## Making room -/

/-- The loop that makes room leaves the blocks of the slot it is for. -/
theorem Sound.allocate_same (h : self.Sound l) (hactive : self.active = some id)
    (hopen : (self.sockets id).status.isOpen = true) (hn : 0 ≤ n) (hfits : self.Fits id n)
    (hrun : self.allocate id n fuel = some (self', some blk))
    (hheld : self.rb.Held l id (self.sockets id).node (self.sockets id).temp c t) :
    ∀ x ∈ c, Ring.SameBlock self.rb self'.rb x := by
  induction fuel generalizing self l with
  | zero => cases hrun
  | succ fuel ih =>
    have howned : ∀ x ∈ c, x ∈ l ∧ self.rb.Used x ∧ self.rb.id x = id := fun x hx =>
      hheld.owned (by omega) (.inl hx)
    rcases h.allocate_round hactive hopen hn hfits hrun with
      ⟨b, l', rb₁, -, rfl, hal⟩ | ⟨p, cid, hev, ⟨-, hno, -⟩ | ⟨hid, hle, hrun⟩⟩
    · exact fun x hx => (hal.keeps x (howned x hx).1 (howned x hx).2.1).2.2
    · cases hno
    · have hround : ∀ x ∈ c, Ring.SameBlock self.rb p.rb x := fun x hx =>
        hev.same x (howned x hx).1 (howned x hx).2.1 (by rw [(howned x hx).2.2]; exact hid.symm)
      have hrest := ih hev.sound (hev.active.trans hactive)
        (by rw [hev.others id hid.symm]; exact hopen) (.inl hle) hrun (hev.held h hid hheld).1
      exact fun x hx => (hround x hx).trans (hrest x hx) (h.tiled.block (howned x hx).1).2.2.2.2.2.1

/-- And so its bytes. -/
theorem Sound.allocate_contents (h : self.Sound l) (hactive : self.active = some id)
    (hopen : (self.sockets id).status.isOpen = true) (hn : 0 ≤ n) (hfits : self.Fits id n)
    (hrun : self.allocate id n fuel = some (self', some blk)) :
    ∃ l', self.Got self' l l' id n blk ∧ self'.contents id = self.contents id := by
  obtain ⟨c, t, hheld, -⟩ := h.active_held hactive (Socket.isOpen_alive hopen)
  have hsame := h.allocate_same hactive hopen hn hfits hrun hheld
  rcases h.allocate hactive hopen hn hfits hrun with ⟨hno, -⟩ | ⟨b, l', hb, hgot⟩
  · cases hno
  · obtain rfl := Option.some.inj hb
    refine ⟨l', hgot, ?_⟩
    have hheld' := (hgot.kept c t hheld).1
    rw [← hgot.socket] at hheld'
    rw [hgot.sound.contents_eq hheld', h.contents_eq hheld]
    exact hheld.segments_same h.tiled hsame

/-! ## Reading -/

/-- What `read` says in the end, with `rd` bytes asked for. -/
def answer (rd : ℤ) : List ReadResult → ReadResult
  | [] => .EWOULDBLOCK
  | .EINTR :: env => answer rd env
  | .bytes data :: _ => .bytes (data.take rd.toNat)
  | r :: _ => r

/-- What is kept of bytes that were read. -/
def stripped (self : Pool) (id : ℕ) (data : List UInt8) : List UInt8 :=
  data.drop (if (self.sockets id).status = .FIRST_POLLIN then FindTGWHeader data else 0)

/-- The bytes of a slot whose blocks did not change. -/
theorem Sound.contents_same {i : ℤ} {node temp : Option ℕ} (h : self.Sound l)
    (h' : self'.rb.Tiled l') (hheld : self.rb.Held l i node temp c t)
    (hnode : (self.sockets j).node = node) (hnode' : (self'.sockets j).node = node)
    (hsame : ∀ x ∈ c, x ∈ l' ∧ Ring.SameBlock self.rb self'.rb x) :
    self'.contents j = self.contents j := by
  have hchain := hheld.chain.same h.tiled hheld.sub fun x hx => (hsame x hx).2
  have hlen := h.tiled.chain_length hheld.chain hheld.sub
  have hlen' := h'.chain_length hchain fun x hx => (hsame x hx).1
  unfold contents
  rw [hnode, hnode', hheld.chain.trail_eq hlen, hchain.trail_eq hlen']
  exact hheld.segments_same h.tiled fun x hx => (hsame x hx).2

/-- `_close_active` closes its slot. -/
theorem close_active_shut (hrun : self.close_active id = some self') :
    (self'.sockets id).status.isOpen = false := by
  unfold Pool.close_active at hrun
  obtain ⟨rb₁, -, hrun⟩ := Option.bind_eq_some_iff.mp hrun
  obtain ⟨rb₂, -, hrun⟩ := Option.bind_eq_some_iff.mp hrun
  unfold force_close_client at hrun
  split at hrun
  · obtain rfl := Option.some.inj hrun
    show ((Pool.set _ id _).sockets id).status.isOpen = false
    rw [set_self]
    exact Socket.force_close_client_eases.2
  · cases hrun

/-- Linking adds a piece. -/
theorem Sound.link_contents {m : ℤ} (h : self.Sound l) (hactive : self.active = some id)
    (hopen : (self.sockets id).status.isOpen = true) (hblk : blk ∈ l) (hm : 0 < m)
    (hf : self.rb.Fresh m blk) (hrun : self.link_node id blk = some self') :
    self'.contents id = self.contents id ++ [self.rb.segment blk] := by
  have hid := h.active id hactive
  have hsmall := h.small
  have hint : Memory.IsInt id := by
    unfold Memory.IsInt
    omega
  obtain ⟨c, t, hheld, -⟩ := h.active_held hactive (Socket.isOpen_alive hopen)
  have hsound := (h.link_node hactive hopen hblk hm hf hrun).1.sound
  rw [h.contents_eq hheld]
  unfold Pool.link_node at hrun
  cases hnode : (self.sockets id).node with
  | none =>
    rw [hnode] at hrun hheld
    obtain rfl := Option.some.inj hrun
    obtain ⟨-, hfirst, -⟩ := hheld.first h.tiled (by omega) hint hblk hf hm
    have heq : (({ self with rb := self.rb.setId blk id } : Pool).set id
        { self.sockets id with node := some blk }).contents id =
          (self.rb.setId blk id).segments [blk] :=
      hsound.contents_eq (by rw [set_self]; exact hfirst)
    rw [heq]
    exact hheld.segments_first h.tiled hblk hf hm
  | some node =>
    rw [hnode] at hrun hheld
    obtain ⟨rb, hlink, rfl⟩ := Option.map_eq_some_iff.mp hrun
    obtain ⟨-, happend, -⟩ := hheld.append h.tiled (by omega) hint hblk hf hm hlink
    rw [← hnode] at happend
    rw [hsound.contents_eq happend]
    exact hheld.segments_append h.tiled hblk hf hm hlink

/-- What the reading loop makes of what `read` says. -/
inductive Fed (p : Pool) (id blk : ℕ) (sz : ℤ) (p' : Pool) : ReadResult → Bool → Prop
  | waited : (p'.sockets id).status = .SUSPEND → Fed p id blk sz p' .EWOULDBLOCK false
  | failed : (p'.sockets id).status.isOpen = false → Fed p id blk sz p' .failed false
  | ended : (p'.sockets id).status.isOpen = false → Fed p id blk sz p' (.bytes []) false
  /-- Nothing comes behind the preamble. -/
  | bare {data : List UInt8} : data ≠ [] → p.stripped id data = [] →
      (p'.sockets id).status = .SUSPEND → Fed p id blk sz p' (.bytes data) false
  | short {data : List UInt8} : p.stripped id data ≠ [] → ((p.stripped id data).length : ℤ) < sz →
      (p'.sockets id).status = .SUSPEND → Fed p id blk sz p' (.bytes data) false
  | full {data : List UInt8} : p.stripped id data ≠ [] → sz ≤ (p.stripped id data).length →
      (p'.sockets id).status = .READ → p'.contents id = p.contents id →
      (p'.rb.segment blk).map Prod.snd = p.stripped id data → Fed p id blk sz p' (.bytes data) true

/-- Bytes that are written into a block that is nobody's leave the other blocks. -/
theorem write_same {rb : Ring} {x : ℕ} {data : List UInt8} (h : rb.Tiled l) (hblk : blk ∈ l)
    (hf : rb.Fresh n blk) (hdata : (data.length : ℤ) ≤ n) (hx : x ∈ l) (hne : x ≠ blk) :
    Ring.SameBlock rb { rb with mem := rb.mem.putBytes (blk + 16) data } x := by
  obtain ⟨-, -, -, hspan, -⟩ := h.block hblk
  rw [hf.length] at hspan
  unfold sizeofBlock at hspan
  have hmem : Ring.SameOutside rb { rb with mem := rb.mem.putBytes (blk + 16) data } (blk + 16)
      (blk + rb.span blk) := ⟨rfl, fun k hk => Memory.putBytes_outside (by omega)⟩
  exact h.sameBlock ⟨hmem.mono (by omega) le_rfl, rfl⟩ hblk hx hne

/-- The block that was read into has the bytes. -/
theorem segment_written {rb rb' : Ring} {data : List UInt8} (hf : rb'.Fresh data.length blk)
    (hmem : ∀ k, blk + 16 ≤ k → (k : ℤ) < blk + 16 + data.length → rb'.mem k = rb.mem k)
    (hbytes : rb.mem.bytes (blk + 16) data.length = data) :
    (rb'.segment blk).map Prod.snd = data := by
  unfold Ring.segment
  rw [Memory.map_snd_cells, hf.offset, hf.length, add_zero, sub_zero, add_sub_cancel_left, Int.toNat_natCast,
    show ((blk : ℤ) + 16).toNat = blk + 16 by omega]
  refine Eq.trans (Memory.bytes_congr fun k hk => ?_) hbytes
  exact hmem _ (by omega) (by omega)

theorem Sound.fill_fed {b : Bool} (h : self.Sound l) (hactive : self.active = some id)
    (hopen : (self.sockets id).status.isOpen = true) (hblk : blk ∈ l) (hf : self.rb.Fresh rd blk)
    (hrd : 0 ≤ rd) (hrun : self.fill id blk sz rd env = some (self', b)) :
    self.Fed id blk sz self' (answer rd env) b := by
  obtain ⟨c, t, hheld, -⟩ := h.active_held hactive (Socket.isOpen_alive hopen)
  obtain ⟨hnot, -⟩ := hf.not_held (by omega) hheld
  have howned : ∀ x ∈ c, x ∈ l ∧ self.rb.Used x := fun x hx =>
    ⟨hheld.sub x hx, hheld.chain.used (by omega) hx⟩
  have hsuspend : ∀ p : Pool, ((p.setStatus id .SUSPEND).sockets id).status = .SUSPEND := by
    intro p
    unfold Pool.setStatus
    rw [set_self]
  induction env with
  | nil =>
    obtain ⟨rb, -, heq⟩ := Option.map_eq_some_iff.mp hrun
    cases heq
    exact .waited (hsuspend _)
  | cons e env ih =>
    cases e with
    | EINTR => exact ih hrun
    | EWOULDBLOCK =>
      obtain ⟨rb, -, heq⟩ := Option.map_eq_some_iff.mp hrun
      cases heq
      exact .waited (hsuspend _)
    | failed =>
      obtain ⟨rb, -, hrun⟩ := Option.bind_eq_some_iff.mp hrun
      obtain ⟨p, hp, heq⟩ := Option.map_eq_some_iff.mp hrun
      cases heq
      exact .failed (close_active_shut hp)
    | bytes data =>
      have hdata : ((data.take rd.toNat).length : ℤ) ≤ rd := by
        have := List.length_take_le rd.toNat data
        omega
      unfold Pool.fill at hrun
      simp only at hrun
      unfold answer
      generalize data.take rd.toNat = data at hrun hdata ⊢
      generalize hlen : (if (self.sockets id).status = SocketStatus.FIRST_POLLIN then _ else 0) =
        httplen at hrun
      have hstrip : self.stripped id data = data.drop httplen := by
        unfold stripped
        rw [hlen]
      generalize hrest : data.drop httplen = rest at hrun hstrip
      have hrestlen : (rest.length : ℤ) ≤ rd := by
        rw [← hrest, List.length_drop]
        omega
      -- the bytes are written, and those behind a preamble once more
      generalize hmem : (if httplen = 0 then _ else _ : Memory) = mem at hrun
      obtain ⟨hwritten, hfq, hsame, hbytes⟩ :
          self.Leads l id { self with rb := { self.rb with mem := mem } } l ∧
            Ring.Fresh { self.rb with mem := mem } rd blk ∧
            (∀ x ∈ l, x ≠ blk → Ring.SameBlock self.rb { self.rb with mem := mem } x) ∧
            mem.bytes (blk + 16) rest.length = rest := by
        rw [← hmem]
        split
        · rename_i hzero
          obtain ⟨h1, h2⟩ := h.write hblk hf hdata
          rw [hzero, List.drop_zero] at hrest
          exact ⟨h1, h2, fun x hx hne => write_same h.tiled hblk hf hdata hx hne,
            hrest ▸ Memory.bytes_putBytes _ _ _⟩
        · obtain ⟨h1, h2⟩ := h.write hblk hf hdata
          obtain ⟨h3, h4⟩ := h1.sound.write hblk h2 hrestlen
          exact ⟨h1.trans h.tiled h3, h4, fun x hx hne =>
            (write_same h.tiled hblk hf hdata hx hne).trans
              (write_same h1.sound.tiled hblk h2 hrestlen hx hne) (h.tiled.block hx).2.2.2.2.2.1,
            Memory.bytes_putBytes _ _ _⟩
      have hq := hwritten.sound
      have hsamec : ∀ x ∈ c, x ∈ l ∧ Ring.SameBlock self.rb { self.rb with mem := mem } x :=
        fun x hx => ⟨hheld.sub x hx, hsame x (hheld.sub x hx) fun heq => hnot (heq ▸ hx)⟩
      by_cases hempty : data = []
      · rw [if_pos hempty] at hrun
        obtain ⟨rb, -, hrun⟩ := Option.bind_eq_some_iff.mp hrun
        obtain ⟨p, hp, heq⟩ := Option.map_eq_some_iff.mp hrun
        cases heq
        rw [hempty]
        exact .ended (close_active_shut hp)
      · rw [if_neg hempty] at hrun
        by_cases hnone : rest = []
        · rw [if_pos hnone] at hrun
          cases hrun
          exact .bare hempty (hstrip.trans hnone) (hsuspend _)
        · rw [if_neg hnone] at hrun
          have hpos : 0 < (rest.length : ℤ) := by
            have := List.length_pos_iff.mpr hnone
            omega
          obtain ⟨rb, hrb, hrun⟩ := Option.bind_eq_some_iff.mp hrun
          obtain ⟨l', hal, hkept⟩ := hq.tiled.shrink_spec hblk hfq hpos hrestlen hrb
          have hshrunk := hwritten.trans h.tiled (hq.spare (hal.spares hq.tiled _))
          have hseg := segment_written hal.fresh hkept hbytes
          -- the blocks of the slot are the same still
          have hcontents : ∀ p : Pool, p.rb = rb → (p.sockets id).node = (self.sockets id).node →
              p.contents id = self.contents id := by
            intro p hp hnode
            refine h.contents_same (by rw [hp]; exact hal.tiled) hheld rfl hnode fun x hx => ?_
            rw [hp]
            obtain ⟨hxl, hs⟩ := hsamec x hx
            have hu := (h.tiled.used_same hxl hs (howned x hx).2).1
            obtain ⟨hmem', -, hs'⟩ := hal.keeps x hxl hu
            exact ⟨hmem', hs.trans hs' (h.tiled.block hxl).2.2.2.2.2.1⟩
          rw [← hstrip] at hnone
          by_cases hsz : (rest.length : ℤ) < sz
          · rw [if_pos hsz] at hrun
            obtain ⟨p, -, heq⟩ := Option.map_eq_some_iff.mp hrun
            cases heq
            exact .short hnone (by rw [hstrip]; exact hsz) (hsuspend _)
          · rw [if_neg hsz] at hrun
            cases hrun
            refine .full hnone (by rw [hstrip]; omega) ?_ (hcontents _ rfl ?_)
              (hseg.trans hstrip.symm)
            · unfold Pool.setStatus
              rw [set_self]
            · unfold Pool.setStatus
              rw [set_self]

/-! ## Pulling -/

/-- What `_ringbuffer_read` says of the bytes of the active slot. -/
theorem Sound.read_piece {v : ℤ} {p : Option ℤ} (h : self.Sound l) (hactive : self.active = some id)
    (hs : (self.sockets id).status.alive = true) (hsize : 0 ≤ size)
    (hread : self.ringbuffer_read id size = some (v, p)) :
    Pieces.piece size.toNat self.skip.toNat (self.contents id) =
        p.map (fun ptr => self.rb.mem.cells ptr.toNat size.toNat) ∧
      v = min size ((self.contents id).flatten.length - self.skip) ∧
      self.skip ≤ (self.contents id).flatten.length := by
  obtain ⟨c, t, p', hheld, hskip, hspec, -⟩ := h.read_spec hactive hs hsize
  obtain ⟨rfl, rfl⟩ := Prod.mk.inj (Option.some.inj (hread.symm.trans hspec))
  rw [h.contents_eq hheld, hheld.filled.length_segments]
  refine ⟨?_, rfl, hskip⟩
  unfold ringbuffer_read at hread
  cases hnode : (self.sockets id).node with
  | none =>
    rw [hnode] at hread hheld
    obtain ⟨-, rfl⟩ := Prod.mk.inj (Option.some.inj hread)
    cases hheld.chain
    rfl
  | some node =>
    rw [hnode] at hread hheld
    exact hheld.data_piece hsize h.skip hread

/-- Where `n` bytes of a slot are, behind `k` others: among its bytes, or in a copy, which is made
when the slot has read. -/
structure Lies (p : Pool) (id k n ptr : ℕ) : Prop where
  there : k + n ≤ (p.contents id).flatten.length
  bytes : p.rb.mem.bytes ptr n = ((Ring.bytesOf (p.contents id)).drop k).take n
  place : p.rb.mem.cells ptr n = ((p.contents id).flatten.drop k).take n ∨
    (p.sockets id).status = .READ ∧ ∃ blk, (p.sockets id).temp = some blk ∧ ptr = blk + 16 ∧
      16 + (n : ℤ) ≤ p.rb.length blk

theorem Lies.of_cells {k m ptr : ℕ} (hthere : k + m ≤ (self.contents id).flatten.length)
    (hcells : self.rb.mem.cells ptr m = ((self.contents id).flatten.drop k).take m) :
    self.Lies id k m ptr := by
  refine ⟨hthere, ?_, .inl hcells⟩
  rw [← Memory.map_snd_cells, hcells, List.map_take, List.map_drop]
  rfl

/-- What is told of the bytes is where they are. -/
theorem Sound.gather_lies {r : Option ℤ} (h : self.Sound l) (hactive : self.active = some id)
    (hread : (self.sockets id).status = .READ) (hsize : 0 ≤ size)
    (hrun : self.gather id size = some (self', r)) :
    (r = none ∧ (self'.sockets id).status.isOpen = false) ∨
      ∃ ptr, r = some ptr ∧ self'.Lies id self.skip.toNat size.toNat ptr.toNat ∧
        self'.skip = self.skip + size ∧ self'.contents id = self.contents id ∧
        (self'.sockets id).status = .READ := by
  have hopen : (self.sockets id).status.isOpen = true := by rw [hread]; rfl
  have hid := h.active id hactive
  have hsmall := h.small
  have hskip0 := h.skip
  have hint : Memory.IsInt id := by
    unfold Memory.IsInt
    omega
  obtain ⟨c, t, p, hheld, -, -, -⟩ := h.read_spec hactive (Socket.isOpen_alive hopen) hsize
  have hbound := h.size_le hheld
  unfold Pool.gather at hrun
  obtain ⟨⟨n, ptr⟩, hdata, hrun⟩ := Option.bind_eq_some_iff.mp hrun
  obtain ⟨hpiece, hn, hskip⟩ := h.read_piece hactive (Socket.isOpen_alive hopen) hsize hdata
  cases ptr with
  | some ptr =>
    cases hrun
    obtain ⟨hx, hlen⟩ := Pieces.piece_eq hpiece
    exact .inr ⟨ptr, rfl, .of_cells hlen hx, rfl, contents_congr rfl rfl, hread⟩
  | none =>
    dsimp only at hrun
    split at hrun
    · rename_i hall
      have hthere : self.skip + size ≤ (self.contents id).flatten.length := by
        have := min_eq_left_iff.mp (hn.symm.trans hall)
        omega
      obtain ⟨⟨q, temp⟩, halloc, hrun⟩ := Option.bind_eq_some_iff.mp hrun
      have hfits : self.Fits id size := by
        rw [h.contents_eq hheld, hheld.filled.length_segments] at hthere
        exact .inl (by omega)
      cases temp with
      | none =>
        rcases h.allocate hactive hopen hsize hfits halloc with ⟨-, hlost⟩ | ⟨blk, l', hno, -⟩
        · cases hrun
          exact .inl ⟨rfl, by rw [hlost.closed]; rfl⟩
        · cases hno
      | some blk =>
        obtain ⟨l', hgot, hsame⟩ := h.allocate_contents hactive hopen hsize hfits halloc
        obtain ⟨rb, hlink, hrun⟩ := Option.bind_eq_some_iff.mp hrun
        obtain ⟨node, hnode, hrun⟩ := Option.bind_eq_some_iff.mp hrun
        obtain ⟨rb', hcopy, heq⟩ := Option.map_eq_some_iff.mp hrun
        cases heq
        obtain ⟨hheld', -⟩ := hgot.kept c t hheld
        rw [← hgot.socket] at hheld'
        have hcontents := hgot.sound.contents_eq hheld'
        rw [hnode] at hheld'
        have hskipq := hgot.skip
        obtain ⟨hsegs, hlength, hbytes⟩ := Ring.Held.segments_copied hlink hcopy hheld'
          hgot.sound.tiled (by omega) hint hgot.mem hgot.fresh hsize (by omega)
        obtain ⟨hsp, hcopied, -⟩ := Ring.Held.copied hlink hcopy hheld' hgot.sound.tiled (by omega)
          hint hgot.mem hgot.fresh hsize
        have hlen := hsp.tiled.chain_length hcopied.chain hcopied.sub
        -- the copy leaves the pieces of the chain as they were
        have hsegs' : rb'.segments (rb'.trail rb'.size (q.sockets id).node) = self.contents id := by
          rw [hnode, hcopied.chain.trail_eq hlen, hsegs, ← hcontents, hsame]
        have hkept : (({ q with rb := rb', skip := q.skip + size } : Pool).set id
            { q.sockets id with temp := some blk }).contents id = self.contents id := by
          rw [← hsegs']
          unfold contents
          rw [set_self]
          rfl
        have hstatus : ((({ q with rb := rb', skip := q.skip + size } : Pool).set id
            { q.sockets id with temp := some blk }).sockets id).status = .READ := by
          rw [set_self, ← hread, ← hgot.socket]
        refine .inr ⟨_, rfl, ⟨by rw [hkept]; omega, ?_, .inr ⟨hstatus, blk, ?_, ?_, ?_⟩⟩,
          congrArg (· + size) hskipq, hkept, hstatus⟩
        · rw [hkept]
          show rb'.mem.bytes _ _ = _
          rw [show ((blk : ℤ) + 16).toNat = blk + 16 by omega, hbytes, ← hcontents, hsame, hskipq]
        · rw [set_self]
        · omega
        · show 16 + (size.toNat : ℤ) ≤ rb'.length blk
          rw [hlength]
          unfold sizeofBlock
          omega
    · cases hrun

/-- What is read for a pull of that many bytes fits. -/
theorem Sound.short_fits (h : self.Sound l) (hsize : 0 ≤ size) (hle : size ≤ 2147483628) :
    ∀ id rd_size, self.Wants size id rd_size → self.Fits id (wanted size rd_size) := by
  intro id rd_size hwants
  have hwanted := wanted_spec size (h.missing hwants hsize)
  exact .inl (by omega)

/-- What `read` says in a pull of the active slot, if it comes to that. -/
def hears (self : Pool) (size : ℤ) (env : List ReadResult) : Option ReadResult :=
  match self.active with
  | none => none
  | some id =>
    match self.ringbuffer_read id size with
    | some (rd_size, none) =>
      if (self.sockets id).status = .POLLIN ∨ (self.sockets id).status = .FIRST_POLLIN then
        match self.allocate id (wanted size rd_size) (self.rb.size + 1) with
        | some (_, some _) => some (answer (wanted size rd_size) env)
        | _ => none
      else none
    | _ => none

/-- What a pull of `size` bytes comes to, by the bytes of its slot and what `read` says. -/
inductive Drawn (p : Pool) (id : ℕ) (size : ℤ) (p' : Pool) :
    Option ReadResult → Option ℤ → Prop
  /-- They are there, in one piece. -/
  | found {ptr : ℤ} : (Pieces.piece size.toNat p.skip.toNat (p.contents id)).isSome →
      p'.rb.mem.cells ptr.toNat size.toNat =
        ((p.contents id).flatten.drop p.skip.toNat).take size.toNat →
      p' = { p with skip := p.skip + size } → Drawn p id size p' none (some ptr)
  /-- The slot has read already. -/
  | spent : Pieces.piece size.toNat p.skip.toNat (p.contents id) = none →
      (p.sockets id).status = .READ → (p'.sockets id).status = .SUSPEND →
      Drawn p id size p' none none
  /-- The slot was not polled. -/
  | missed : p' = p → (p.sockets id).status = .SUSPEND → Drawn p id size p' none none
  /-- The slot is closed, to make room or because it has ended. -/
  | lost {heard : Option ReadResult} :
      ((p.sockets id).status = .POLLIN ∨ (p.sockets id).status = .FIRST_POLLIN) →
      (p'.sockets id).status.isOpen = false → Drawn p id size p' heard none
  | waited {heard : ReadResult} : Pieces.piece size.toNat p.skip.toNat (p.contents id) = none →
      ((p.sockets id).status = .POLLIN ∨ (p.sockets id).status = .FIRST_POLLIN) →
      (heard = .EWOULDBLOCK ∨ ∃ data, heard = .bytes data ∧ data ≠ [] ∧ p.stripped id data = []) →
      (p'.sockets id).status = .SUSPEND → Drawn p id size p' (some heard) none
  | short {data : List UInt8} : Pieces.piece size.toNat p.skip.toNat (p.contents id) = none →
      ((p.sockets id).status = .POLLIN ∨ (p.sockets id).status = .FIRST_POLLIN) →
      p.stripped id data ≠ [] →
      ((p.contents id).flatten.length + (p.stripped id data).length : ℤ) < p.skip + size →
      (p'.sockets id).status = .SUSPEND → Drawn p id size p' (some (.bytes data)) none
  /-- What was missing has come. -/
  | full {data : List UInt8} {s : List (ℕ × UInt8)} {ptr : ℤ} :
      Pieces.piece size.toNat p.skip.toNat (p.contents id) = none →
      ((p.sockets id).status = .POLLIN ∨ (p.sockets id).status = .FIRST_POLLIN) →
      s.map Prod.snd = p.stripped id data → p'.contents id = p.contents id ++ [s] →
      p'.Lies id p.skip.toNat size.toNat ptr.toNat → p'.skip = p.skip + size →
      (p'.sockets id).status = .READ → Drawn p id size p' (some (.bytes data)) (some ptr)

theorem stripped_congr {p : Pool} (h : p.sockets id = self.sockets id) (data : List UInt8) :
    p.stripped id data = self.stripped id data := by
  unfold stripped
  rw [h]

/-- A pull that reads: what is missing of its bytes is known. -/
theorem Sound.receive_drawn {r : Option ℤ} {rd_size : ℤ} (h : self.Sound l)
    (hactive : self.active = some id)
    (hstatus : (self.sockets id).status = .POLLIN ∨ (self.sockets id).status = .FIRST_POLLIN)
    (hsize : 0 ≤ size) (hpiece : Pieces.piece size.toNat self.skip.toNat (self.contents id) = none)
    (hrd : rd_size = min size ((self.contents id).flatten.length - self.skip))
    (hskip : self.skip ≤ (self.contents id).flatten.length)
    (hfits : self.Fits id (wanted size rd_size))
    (hrun : self.receive id size (size - rd_size) (wanted size rd_size) env = some (self', r)) :
    self.Drawn id size self'
      (match self.allocate id (wanted size rd_size) (self.rb.size + 1) with
        | some (_, some _) => some (answer (wanted size rd_size) env)
        | _ => none) r := by
  have hopen := reads_open hstatus
  have hpos := (wanted_spec size (show 0 ≤ rd_size by omega)).1
  obtain ⟨⟨p, blk⟩, halloc, hrun⟩ := Option.bind_eq_some_iff.mp hrun
  rw [halloc]
  cases blk with
  | none =>
    cases hrun
    rcases h.allocate hactive hopen hpos hfits halloc with ⟨-, hlost⟩ | ⟨_, _, hno, -⟩
    · exact .lost hstatus (by rw [hlost.closed]; rfl)
    · cases hno
  | some blk =>
    obtain ⟨l₁, hgot, hsame⟩ := h.allocate_contents hactive hopen hpos hfits halloc
    obtain ⟨⟨p₁, b⟩, hfill, hrun⟩ := Option.bind_eq_some_iff.mp hrun
    have hactive' := hgot.active.trans hactive
    have hopen' : (p.sockets id).status.isOpen = true := by
      rw [hgot.socket]
      exact hopen
    have hfed := hgot.sound.fill_fed hactive' hopen' hgot.mem hgot.fresh hpos hfill
    obtain ⟨l₂, hfilled, hact₁, -, hready⟩ := hgot.sound.fill hactive' hopen' hgot.mem hgot.fresh
      hpos hfill
    dsimp only
    generalize answer (wanted size rd_size) env = heard at hfed ⊢
    -- by what was read into the new block: it is linked behind the chain if there is data in it
    cases hfed with
    | waited hs =>
      cases hrun
      exact .waited hpiece hstatus (.inl rfl) hs
    | failed hs =>
      cases hrun
      exact .lost hstatus hs
    | ended hs =>
      cases hrun
      exact .lost hstatus hs
    | @bare data hne hbare hs =>
      cases hrun
      rw [stripped_congr hgot.socket] at hbare
      exact .waited hpiece hstatus (.inr ⟨data, rfl, hne, hbare⟩) hs
    | @short data hne hlt hs =>
      cases hrun
      rw [stripped_congr hgot.socket] at hne hlt
      refine .short hpiece hstatus hne ?_ hs
      omega
    | @full data hne hle hs hc hseg =>
      rw [stripped_congr hgot.socket] at hseg
      obtain ⟨p₂, hlink, hrun⟩ := Option.bind_eq_some_iff.mp hrun
      obtain ⟨hmem, ⟨m, hm, -, hf⟩, hopen₁, hskip₁⟩ := hready rfl
      have hactive₁ := hact₁.trans hactive'
      have hlinked := hfilled.sound.link_contents hactive₁ hopen₁ hmem hm hf hlink
      obtain ⟨hleads, hact₂, -, hstatus₂, hskip₂, -⟩ :=
        hfilled.sound.link_node hactive₁ hopen₁ hmem hm hf hlink
      rw [hc, hsame] at hlinked
      have hskips : p₂.skip = self.skip := hskip₂.trans (hskip₁.trans hgot.skip)
      rcases hleads.sound.gather_lies (hact₂.trans hactive₁) (hstatus₂.trans hs) hsize hrun with
        ⟨rfl, hs'⟩ | ⟨ptr, rfl, hlies, hskip', hc', hs'⟩
      · exact .lost hstatus hs'
      · rw [hskips] at hlies hskip'
        exact .full hpiece hstatus hseg (hc'.trans hlinked) hlies hskip' hs'

/-- Every pull of an open slot is one of these. -/
theorem Sound.pull_drawn {r : Option ℤ} (h : self.Sound l) (hactive : self.active = some id)
    (hopen : (self.sockets id).status.isOpen = true) (hsize : 0 ≤ size)
    (hfits : ∀ rd_size, self.Wants size id rd_size → self.Fits id (wanted size rd_size))
    (hrun : self.mread_pull size env = some (self', r)) :
    self.Drawn id size self' (self.hears size env) r := by
  have hskip0 := h.skip
  unfold mread_pull at hrun
  rw [hactive] at hrun
  obtain ⟨⟨n, ptr⟩, hread, hrun⟩ := Option.bind_eq_some_iff.mp hrun
  obtain ⟨hpiece, hn, hskip⟩ := h.read_piece hactive (Socket.isOpen_alive hopen) hsize hread
  unfold hears
  rw [hactive]
  dsimp only
  rw [hread]
  cases ptr with
  | some ptr =>
    cases hrun
    rw [← hactive]
    exact .found (by rw [hpiece]; rfl) (Pieces.piece_eq hpiece).1 rfl
  | none =>
    simp only at hrun
    have hmay : ∀ hstatus : (self.sockets id).status = .POLLIN ∨
        (self.sockets id).status = .FIRST_POLLIN,
        self.receive id size (size - n) (wanted size n) env = some (self', r) →
        self.Drawn id size self' (if (self.sockets id).status = .POLLIN ∨
            (self.sockets id).status = .FIRST_POLLIN then
          match self.allocate id (wanted size n) (self.rb.size + 1) with
          | some (_, some _) => some (answer (wanted size n) env)
          | _ => none
        else none) r := by
      intro hstatus hrun
      rw [if_pos hstatus]
      exact h.receive_drawn hactive hstatus hsize hpiece hn hskip
        (hfits n ⟨hactive, hstatus, hread⟩) hrun
    cases hstatus : (self.sockets id).status with
    | INVALID =>
      rw [hstatus] at hopen
      cases hopen
    | CLOSED =>
      rw [hstatus] at hopen
      cases hopen
    | HALFCLOSE =>
      rw [hstatus] at hopen
      cases hopen
    | CONNECTED =>
      rw [hstatus] at hrun
      cases hrun
    | SUSPEND =>
      rw [hstatus] at hrun
      cases hrun
      exact .missed rfl hstatus
    | READ =>
      rw [hstatus] at hrun
      cases hrun
      refine .spent hpiece hstatus ?_
      unfold Pool.setStatus
      rw [set_self]
    | POLLIN =>
      have hmay := hmay (.inl hstatus)
      rw [hstatus] at hrun hmay
      exact hmay hrun
    | FIRST_POLLIN =>
      have hmay := hmay (.inr hstatus)
      rw [hstatus] at hrun hmay
      exact hmay hrun

/-! ## The others -/

/-- The sockets of the other slots are as they were, or closed. -/
def Spared (p : Pool) (id : ℕ) (p' : Pool) : Prop :=
  ∀ j ≠ id, p'.sockets j = p.sockets j ∨ (p'.sockets j).status.isOpen = false

theorem Spared.refl (p : Pool) (id : ℕ) : p.Spared id p := fun _ _ => .inl rfl

theorem Spared.trans {p : Pool} (h : self.Spared id p) (h' : p.Spared id self') :
    self.Spared id self' := by
  intro j hj
  rcases h' j hj with heq | hno
  · rcases h j hj with heq' | hno
    · exact .inl (heq.trans heq')
    · exact .inr (by rw [heq]; exact hno)
  · exact .inr hno

/-- Only this slot's socket, and the ring, are touched. -/
theorem Spared.of_set (h : ∀ j ≠ id, self'.sockets j = self.sockets j) : self.Spared id self' :=
  fun j hj => .inl (h j hj)

end Pool

end DnServer.Gate
