import DnServer.Gate.Frames
import DnServer.Gate.Reclaim

/-!
# Frames without data

A frame of no bytes is pulled like any other: `ringbuffer_data` gives the place where
its data would begin, and there is such a place only in a block that has a byte behind
the header. Where the header is the last that was received the pull gives nothing, and
the frame waits until the next byte of its connection comes.
-/

namespace DnServer.Gate

open DnServer.Lib

namespace Pool

variable {self self' : Pool} {l : List ℕ} {id blk : ℕ} {size sz rd : ℤ} {env : List ReadResult}

/-- No byte comes: there is nothing to read, or the connection has ended. -/
def Silent (env : List ReadResult) : Prop := ∀ data, ReadResult.bytes data ∈ env → data = []

/-- A byte of the slot is buffered behind what was pulled and not yielded. -/
def Behind (self : Pool) (id : ℕ) : Prop :=
  ∃ c, self.rb.Chain id (self.sockets id).node c ∧ self.skip < self.rb.stored c

/-- Without a byte the reading loop does not get what is needed. -/
theorem fill_silent {b : Bool} (hsilent : Silent env)
    (hrun : self.fill id blk sz rd env = some (self', b)) : b = false := by
  induction env with
  | nil =>
    obtain ⟨rb, -, heq⟩ := Option.map_eq_some_iff.mp hrun
    cases heq
    rfl
  | cons e env ih =>
    cases e with
    | EINTR => exact ih (fun data hmem => hsilent data (List.mem_cons_of_mem _ hmem)) hrun
    | EWOULDBLOCK =>
      obtain ⟨rb, -, heq⟩ := Option.map_eq_some_iff.mp hrun
      cases heq
      rfl
    | failed =>
      obtain ⟨rb, -, hrun⟩ := Option.bind_eq_some_iff.mp hrun
      obtain ⟨p, -, heq⟩ := Option.map_eq_some_iff.mp hrun
      cases heq
      rfl
    | bytes data =>
      obtain rfl := hsilent data List.mem_cons_self
      unfold Pool.fill at hrun
      simp only [List.take_nil, if_true] at hrun
      obtain ⟨rb, -, hrun⟩ := Option.bind_eq_some_iff.mp hrun
      obtain ⟨p, -, heq⟩ := Option.map_eq_some_iff.mp hrun
      cases heq
      rfl

theorem receive_silent {r : Option ℤ} (hsilent : Silent env)
    (hrun : self.receive id size sz rd env = some (self', r)) : r = none := by
  obtain ⟨⟨p, blk⟩, -, hrun⟩ := Option.bind_eq_some_iff.mp hrun
  cases blk with
  | none =>
    cases hrun
    rfl
  | some blk =>
    obtain ⟨⟨p₁, b⟩, hfill, hrun⟩ := Option.bind_eq_some_iff.mp hrun
    obtain rfl := fill_silent hsilent hfill
    cases hrun
    rfl

/-- Behind a buffered byte no bytes can be pulled. -/
theorem Sound.pull_behind (h : self.Sound l) (hactive : self.active = some id)
    (hbehind : self.Behind id) (env : List ReadResult) :
    ∃ ptr, self.mread_pull 0 env = some ({ self with skip := self.skip + 0 }, some ptr) := by
  obtain ⟨c, hchain, hlt⟩ := hbehind
  have hskip := h.skip
  have hs : (self.sockets id).status.alive = true := by
    by_contra hdead
    rw [(h.quiet id (Bool.eq_false_iff.mpr hdead)).1] at hchain
    cases hchain
    rw [Ring.stored_nil] at hlt
    omega
  obtain ⟨c', t, p, hheld, -, hread, hnone, -⟩ := h.read_spec hactive hs le_rfl
  cases p with
  | none =>
    have heq := hnone rfl rfl
    rw [hheld.chain.unique hchain] at heq
    omega
  | some ptr =>
    refine ⟨ptr, ?_⟩
    unfold mread_pull
    rw [hactive]
    dsimp only
    rw [hread]
    rfl

/-- Behind the last byte a pull of no bytes gives nothing until another one comes. -/
theorem Sound.pull_not_behind {r : Option ℤ} (h : self.Sound l) (hactive : self.active = some id)
    (hnot : ¬self.Behind id) (hsilent : Silent env)
    (hrun : self.mread_pull 0 env = some (self', r)) : r = none := by
  cases pull_step hactive hrun with
  | found hread =>
    refine absurd ?_ hnot
    cases hs : (self.sockets id).status.alive with
    | true =>
      obtain ⟨c, t, p, hheld, -, hspec, -, hsome⟩ := h.read_spec hactive hs le_rfl
      obtain ⟨-, rfl⟩ := Prod.mk.inj (Option.some.inj (hread.symm.trans hspec))
      exact ⟨c, hheld.chain, (hsome (Option.some_ne_none _)).2⟩
    | false =>
      unfold ringbuffer_read at hread
      rw [(h.quiet id hs).1] at hread
      cases hread
  | missed => rfl
  | suspended _ => rfl
  | received _ _ hrun => exact receive_silent hsilent hrun

end Pool

namespace Server

open Pool

variable {self : Server} {id : ℤ} {plen : ℕ} {env : List ReadResult}

/-- A frame without data is forwarded while no byte comes just when one is buffered behind its
header. -/
theorem forwards_empty_iff {l : List ℕ} {conn : ℕ} (h : self.pool.Sound l)
    (hactive : self.pool.active = some conn) (hsilent : Silent env)
    (hempty : bigEndian self.header_size (fun i => self.pool.rb.mem (plen + i)) = 0) :
    (∃ self' effects, self.frame id plen env = some (self', effects) ∧
      .forward id [] ∈ effects) ↔ self.pool.Behind conn := by
  unfold frame
  rw [hempty]
  constructor
  · rintro ⟨self', effects, hrun, hmem⟩
    by_contra hnot
    obtain ⟨⟨p, r⟩, hpull, hrun⟩ := Option.bind_eq_some_iff.mp hrun
    obtain rfl := h.pull_not_behind hactive hnot hsilent hpull
    obtain ⟨⟨s, rest⟩, hmissed, heq⟩ := Option.map_eq_some_iff.mp hrun
    cases heq
    rcases List.mem_cons.mp hmem with heq | hmem
    · cases heq
    · exact (missed_quiet hmissed).2 [] hmem
  · intro hbehind
    obtain ⟨ptr, hpull⟩ := h.pull_behind hactive hbehind env
    have hp : Sound { self.pool with skip := self.pool.skip + 0 } l :=
      h.congr rfl rfl rfl rfl rfl (add_zero _)
    obtain ⟨p, hyield, -⟩ := hp.yield hactive
    dsimp only
    rw [hpull, Option.bind_some]
    dsimp only
    rw [hyield]
    refine ⟨_, _, rfl, ?_⟩
    rw [Int.toNat_zero, Memory.bytes_zero]
    exact List.mem_cons_of_mem _ List.mem_cons_self

/-- **Frames without data.** In every run whose pulls fit, when a header says that its frame has no
data and no byte comes after it, the frame is forwarded just when a byte of the connection is
already buffered behind the header. -/
theorem empty_frame_iff {max : ℕ} {buffer_size : ℤ} {start : Pool} {conn : ℕ} {plen : ℤ}
    {env env' : List ReadResult} (hsmall : max < 2147483648) (hbuffer : buffer_size ≤ 2147483644)
    (hstart : ((Pool.system max buffer_size).restrict Fitting).Reachable start)
    (hactive : start.active = some conn)
    (hheader : 0 < self.header_size ∧ self.header_size ≤ READBLOCKSIZE)
    (hpull : start.mread_pull self.header_size env = some (self.pool, some plen))
    (hempty : bigEndian self.header_size (fun i => self.pool.rb.mem (plen.toNat + i)) = 0)
    (hsilent : Silent env') :
    (∃ self' effects, self.frame id plen.toNat env' = some (self', effects) ∧
      .forward id [] ∈ effects) ↔ self.pool.Behind conn := by
  obtain ⟨l, hl⟩ := (sound hsmall hbuffer).invariant _ hstart
  have hpulled := hl.pull hactive hheader.1.le (hl.header_fits hheader.1.le hheader.2 conn) hpull
  obtain ⟨l', hl'⟩ := hpulled.leads
  exact forwards_empty_iff hl'.sound (hpulled.active.trans hactive) hsilent hempty

/-- A gate for one connection, which is polled because something came. -/
def polled : Option Pool :=
  ([.poll (some [.listen (.connected 5 true)]), .poll (some [.socket 0 true none])] :
    List PoolOp).foldlM exec (mread_create 1 4096)

/-- It is reached by calls without a pull. -/
theorem polled_reachable {start : Pool} (h : polled = some start) :
    ((Pool.system 1 4096).restrict Fitting).Reachable start := by
  refine reachable_foldlM (T := Fitting) (.init ⟨Nat.one_pos, rfl⟩) (fun p _ op hop => ?_) h
  simp only [List.mem_cons, List.not_mem_nil, or_false] at hop
  rcases hop with rfl | rfl <;> trivial

/-- The gate when the header of the first frame was pulled from some bytes. -/
def headed (data : List UInt8) : Option (Pool × Server × ℤ) :=
  polled.bind fun start => (start.mread_pull 4 [.bytes data]).bind fun r => r.2.map fun plen =>
    (start, ⟨⟨0, 1, 1, fun _ => none, fun _ => ⟨0, 0, 0⟩⟩, r.1, 4, 7, 0⟩, plen)

theorem headed_spec {data : List UInt8} {start : Pool} {plen : ℤ}
    (h : headed data = some (start, self, plen)) :
    ((Pool.system 1 4096).restrict Fitting).Reachable start ∧ self.header_size = 4 ∧
      start.mread_pull 4 [.bytes data] = some (self.pool, some plen) := by
  obtain ⟨start', hstart, h⟩ := Option.bind_eq_some_iff.mp h
  obtain ⟨⟨p, ptr⟩, hpull, h⟩ := Option.bind_eq_some_iff.mp h
  obtain ⟨plen', rfl, heq⟩ := Option.map_eq_some_iff.mp h
  cases heq
  exact ⟨polled_reachable hstart, rfl, hpull⟩

/-- A frame without data that is followed by a byte. -/
theorem empty_frame_followed : ∃ start self plen,
    headed [0, 0, 0, 0, 9] = some (start, self, plen) ∧ self.pool.Behind 0 := by
  have hrun : (headed [0, 0, 0, 0, 9]).bind (fun s => (s.2.1.frame 1 s.2.2.toNat []).map fun r =>
      (s.1.active, bigEndian 4 (fun i => s.2.1.pool.rb.mem (s.2.2.toNat + i)), r.2)) =
        some (some 0, 0, [.pull 0, .forward 1 []]) := by
    decide +kernel
  obtain ⟨⟨start, self, plen⟩, hheaded, hrest⟩ := Option.bind_eq_some_iff.mp hrun
  obtain ⟨⟨self', effects⟩, hframe, heq⟩ := Option.map_eq_some_iff.mp hrest
  simp only [Prod.mk.injEq] at heq
  obtain ⟨hactive, hempty, heffects⟩ := heq
  obtain ⟨hreach, hsize, hpull⟩ := headed_spec hheaded
  rw [← hsize] at hpull hempty
  refine ⟨start, self, plen, hheaded, ?_⟩
  refine (empty_frame_iff (by decide) (by decide) hreach hactive (by rw [hsize]; decide) hpull
    hempty (fun data hmem => absurd hmem List.not_mem_nil)).mp ⟨self', effects, hframe, ?_⟩
  rw [heffects]
  exact List.mem_cons_of_mem _ List.mem_cons_self

/-- A frame without data that is not followed by a byte is not forwarded. -/
theorem empty_frame_held :
    ∃ (start : Pool) (self self' : Server) (plen : ℤ) (effects : List Effect), (Pool.system 1 4096).Reachable start ∧
      start.mread_pull 4 [.bytes [0, 0, 0, 0]] = some (self.pool, some plen) ∧
      bigEndian 4 (fun i => self.pool.rb.mem (plen.toNat + i)) = 0 ∧
      self.frame 1 plen.toNat [] = some (self', effects) ∧ .forward 1 [] ∉ effects := by
  have hrun : (headed [0, 0, 0, 0]).bind (fun s => (s.2.1.frame 1 s.2.2.toNat []).map fun r =>
      (bigEndian 4 (fun i => s.2.1.pool.rb.mem (s.2.2.toNat + i)), r.2)) =
        some (0, [.pull 0]) := by
    decide +kernel
  obtain ⟨⟨start, self, plen⟩, hheaded, hrest⟩ := Option.bind_eq_some_iff.mp hrun
  obtain ⟨⟨self', effects⟩, hframe, heq⟩ := Option.map_eq_some_iff.mp hrest
  simp only [Prod.mk.injEq] at heq
  obtain ⟨hempty, rfl⟩ := heq
  obtain ⟨hreach, -, hpull⟩ := headed_spec hheaded
  refine ⟨start, self, self', plen, _, hreach.of_restrict, hpull, hempty, hframe, fun hmem => ?_⟩
  cases List.mem_singleton.mp hmem

end Server

end DnServer.Gate
