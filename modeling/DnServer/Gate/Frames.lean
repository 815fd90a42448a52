import DnServer.Gate.Connections
import DnServer.Gate.Mread

/-!
# Frames on the way through the gate

The callback of `main.c` for connections with a length before each frame: poll,
pull the header, pull as many bytes as it says, forward them and yield. The
length is what the header's bytes are as an `int`, and nothing looks at it
before it is pulled and sent.
-/

namespace DnServer.Gate

open DnServer.Lib

/-- `struct gate`: the connection table, the pool and where frames go. -/
structure Server where
  gate : GateState
  pool : Pool
  header_size : ℤ
  watchdog : ℕ
  broker : ℕ

/-- What the callback does to the outside, in order. -/
inductive Effect
  /-- `mread_pull` for the bytes of a frame. -/
  | pull (size : ℤ)
  | forward (uid : ℤ) (data : List UInt8)
  /-- `skynet_send` with a size. -/
  | send (destination : ℕ) (sz : ℤ)
  | opened (uid : ℤ)
  | closed (uid : ℤ)
  deriving DecidableEq, Repr

namespace Server

/-- The size of `"%d data "` for an id. -/
def prefixSize (uid : ℤ) : ℤ := (toString uid).length + 6

/-- `_forward` on `len` bytes of an id. -/
def _forward (self : Server) (uid len : ℤ) : List Effect :=
  if self.broker ≠ 0 then [.send self.broker len]
  else
    match self.gate._id_to_agent uid with
    | none => []
    | some conn =>
      if (self.gate.map conn).agent ≠ 0 then [.send (self.gate.map conn).agent len]
      else if self.watchdog ≠ 0 then [.send self.watchdog (len + prefixSize uid)]
      else []

/-- Bytes of a header as an `int`, the first one the highest. -/
def bigEndian (header_size : ℤ) (plen : ℕ → UInt8) : ℤ :=
  if header_size = 2 then ((plen 0).toNat <<< 8 ||| (plen 1).toNat : ℕ)
  else
    (((plen 0).toNat <<< 24 ||| ((plen 1).toNat <<< 16 |||
      ((plen 2).toNat <<< 8 ||| (plen 3).toNat)) : ℕ) : ℤ).bmod 4294967296

/-- The connection of the callback is closed: its id is removed. -/
def remove (self : Server) (id : ℤ) : Option (Server × List Effect) :=
  (self.gate._remove_id id).map fun gate => ({ self with gate := gate }, [.closed id])

/-- After a pull that gave nothing. -/
def missed (self : Server) (id : ℤ) : Option (Server × List Effect) :=
  self.pool.mread_closed.bind fun
    | (pool, true) =>
      if id ≠ 0 then ({ self with pool := pool }).remove id else some ({ self with pool := pool }, [])
    | (pool, false) => some ({ self with pool := pool }, [])

/-- The callback from the length on; the header is at `plen`. -/
def frame (self : Server) (id : ℤ) (plen : ℕ) (env : List ReadResult) :
    Option (Server × List Effect) :=
  let len := bigEndian self.header_size fun i => self.pool.rb.mem (plen + i)
  (self.pool.mread_pull len env).bind fun
    | (pool, none) =>
      (({ self with pool := pool }).missed id).map fun (r : Server × List Effect) =>
        (r.1, .pull len :: r.2)
    | (pool, some data) =>
      pool.mread_yield.map fun pool' =>
        ({ self with pool := pool' },
          .pull len :: .forward id (pool.rb.mem.bytes data.toNat len.toNat) ::
            ({ self with pool := pool })._forward id len)

/-- The callback: `wait` is what is polled, `env` and `env'` what the reads for the header and
for the frame give. -/
def _cb (self : Server) (wait : Option (List PollEvent)) (env env' : List ReadResult) :
    Option (Server × List Effect) :=
  (self.pool.mread_poll wait).bind fun
    | (pool, none) => some ({ self with pool := pool }, [])
    | (pool, some connection_id) =>
      let id := (self.gate.map connection_id).uid
      (pool.mread_pull self.header_size env).bind fun
        | (pool, none) => ({ self with pool := pool }).missed id
        | (pool, some plen) =>
          if id = 0 then
            (self.gate._gen_id connection_id).toOption.bind fun r =>
              (({ self with pool := pool, gate := r.1 }).frame r.2 plen.toNat env').map
                fun (s : Server × List Effect) => (s.1, .opened r.2 :: s.2)
          else ({ self with pool := pool }).frame id plen.toNat env'

/-! ## Lengths -/

/-- `HANDLE_MASK`: sizes of messages are below it. -/
def frameLimit : ℤ := 16777216

/-- Every length that is pulled or sent is one of a frame. -/
def Bounded (effects : List Effect) : Prop :=
  ∀ e ∈ effects, match e with
    | .pull size => 0 ≤ size ∧ size < frameLimit
    | .send _ sz => 0 ≤ sz ∧ sz < frameLimit
    | _ => True

/-- A frame of an id that nobody but the watchdog gets. -/
def ToWatchdog (self : Server) (uid : ℤ) : Prop :=
  self.broker = 0 ∧ self.watchdog ≠ 0 ∧
    ∃ conn, self.gate._id_to_agent uid = some conn ∧ (self.gate.map conn).agent = 0

/-- The bytes of a four-byte header, one after the other. -/
theorem bigEndian_four (plen : ℕ → UInt8) :
    bigEndian 4 plen = (((plen 0).toNat * 16777216 + (plen 1).toNat * 65536 +
      (plen 2).toNat * 256 + (plen 3).toNat : ℕ) : ℤ).bmod 4294967296 := by
  have h1 := (plen 1).toNat_lt
  have h2 := (plen 2).toNat_lt
  have h3 := (plen 3).toNat_lt
  have e3 : (plen 2).toNat <<< 8 ||| (plen 3).toNat = (plen 2).toNat * 256 + (plen 3).toNat := by
    rw [← Nat.shiftLeft_add_eq_or_of_lt (by omega), Nat.shiftLeft_eq]
  have e2 : (plen 1).toNat <<< 16 ||| ((plen 2).toNat * 256 + (plen 3).toNat) =
      (plen 1).toNat * 65536 + ((plen 2).toNat * 256 + (plen 3).toNat) := by
    rw [← Nat.shiftLeft_add_eq_or_of_lt (by omega), Nat.shiftLeft_eq]
  have e1 : (plen 0).toNat <<< 24 ||| ((plen 1).toNat * 65536 +
        ((plen 2).toNat * 256 + (plen 3).toNat)) =
      (plen 0).toNat * 16777216 + ((plen 1).toNat * 65536 +
        ((plen 2).toNat * 256 + (plen 3).toNat)) := by
    rw [← Nat.shiftLeft_add_eq_or_of_lt (by omega), Nat.shiftLeft_eq]
  unfold bigEndian
  rw [if_neg (by decide), e3, e2, e1, Nat.add_assoc, Nat.add_assoc]

/-- A length is that of a frame just when the first byte of the header is zero. -/
theorem bigEndian_bounded (plen : ℕ → UInt8) :
    (0 ≤ bigEndian 4 plen ∧ bigEndian 4 plen < frameLimit) ↔ plen 0 = 0 := by
  have h0 := (plen 0).toNat_lt
  have h1 := (plen 1).toNat_lt
  have h2 := (plen 2).toNat_lt
  have h3 := (plen 3).toNat_lt
  rw [bigEndian_four, ← UInt8.toNat_inj, Int.bmod_def]
  unfold frameLimit
  show _ ↔ (plen 0).toNat = 0
  split <;> omega

variable {self self' : Server} {id : ℤ} {plen : ℕ} {env : List ReadResult} {effects : List Effect}

theorem bounded_cons {e : Effect} : Bounded (e :: effects) ↔ Bounded [e] ∧ Bounded effects := by
  unfold Bounded
  rw [List.forall_mem_cons, List.forall_mem_singleton]

theorem prefixSize_nonneg (uid : ℤ) : 0 ≤ prefixSize uid := by
  unfold prefixSize
  omega

/-- What `_forward` sends is too long only with the watchdog's prefix. -/
theorem bounded_forward {uid len : ℤ} (hlen : 0 ≤ len ∧ len < frameLimit) :
    Bounded (self._forward uid len) ↔ (self.ToWatchdog uid → len + prefixSize uid < frameLimit) := by
  have hone : ∀ (d : ℕ) (sz : ℤ), Bounded [.send d sz] ↔ 0 ≤ sz ∧ sz < frameLimit := fun d sz =>
    List.forall_mem_singleton
  have hnil : Bounded [] := List.forall_mem_nil _
  have hp := prefixSize_nonneg uid
  unfold _forward
  by_cases hb : self.broker ≠ 0
  · rw [if_pos hb, hone]
    exact ⟨fun _ h => absurd h.1 hb, fun _ => hlen⟩
  · rw [if_neg hb]
    rw [not_not] at hb
    cases hagent : self.gate._id_to_agent uid with
    | none =>
      refine ⟨fun _ h => ?_, fun _ => hnil⟩
      obtain ⟨conn, hconn, -⟩ := h.2.2
      rw [hagent] at hconn
      cases hconn
    | some conn =>
      simp only
      by_cases ha : (self.gate.map conn).agent ≠ 0
      · rw [if_pos ha, hone]
        refine ⟨fun _ h => ?_, fun _ => hlen⟩
        obtain ⟨conn', hconn, hzero⟩ := h.2.2
        obtain rfl := Option.some.inj (hagent.symm.trans hconn)
        exact absurd hzero ha
      · rw [if_neg ha]
        rw [not_not] at ha
        by_cases hw : self.watchdog ≠ 0
        · rw [if_pos hw, hone]
          refine ⟨fun h _ => h.2, fun h => ⟨by omega, h ⟨hb, hw, conn, hagent, ha⟩⟩⟩
        · rw [if_neg hw]
          exact ⟨fun _ h => absurd h.2.1 hw, fun _ => hnil⟩

/-- A pull that gives nothing is followed by no length. -/
theorem missed_quiet {uid : ℤ} (h : self.missed uid = some (self', effects)) :
    Bounded effects ∧ ∀ data, Effect.forward id data ∉ effects := by
  have hnil : Bounded [] ∧ ∀ data, Effect.forward id data ∉ [] :=
    ⟨List.forall_mem_nil _, fun _ => List.not_mem_nil⟩
  unfold missed at h
  obtain ⟨⟨pool, closed⟩, -, h⟩ := Option.bind_eq_some_iff.mp h
  cases closed with
  | false =>
    cases h
    exact hnil
  | true =>
    simp only at h
    split at h
    · obtain ⟨gate, -, heq⟩ := Option.map_eq_some_iff.mp h
      cases heq
      refine ⟨List.forall_mem_singleton.mpr trivial, fun data hmem => ?_⟩
      cases List.mem_singleton.mp hmem
    · cases h
      exact hnil

/-- **Lengths of frames.** With a four-byte header every length that the callback pulls
or sends is that of a frame just when the header's first byte is zero, and a frame
that is there when it is pulled and goes to the watchdog is one with its prefix too. -/
theorem frame_bounded_iff (h4 : self.header_size = 4)
    (h : self.frame id plen env = some (self', effects)) :
    let len := bigEndian 4 fun i => self.pool.rb.mem (plen + i)
    Bounded effects ↔ self.pool.rb.mem plen = 0 ∧
      ∀ pool ptr, self.pool.mread_pull len env = some (pool, some ptr) → self.ToWatchdog id →
        len + prefixSize id < frameLimit := by
  intro len
  have hfirst : (0 ≤ len ∧ len < frameLimit) ↔ self.pool.rb.mem plen = 0 :=
    bigEndian_bounded fun i => self.pool.rb.mem (plen + i)
  have hone : ∀ len : ℤ, Bounded [.pull len] ↔ 0 ≤ len ∧ len < frameLimit := fun len =>
    List.forall_mem_singleton
  unfold frame at h
  rw [h4] at h
  obtain ⟨⟨pool, r⟩, hpull, h⟩ := Option.bind_eq_some_iff.mp h
  have hpull : self.pool.mread_pull len env = some (pool, r) := hpull
  cases r with
  | none =>
    -- the frame is not there yet
    obtain ⟨⟨self₁, rest⟩, hmissed, heq⟩ := Option.map_eq_some_iff.mp h
    cases heq
    have hquiet := (@missed_quiet _ _ id _ _ hmissed).1
    rw [bounded_cons, hone, hfirst, hpull]
    exact ⟨fun hb => ⟨hb.1, nofun⟩, fun hb => ⟨hb.1, hquiet⟩⟩
  | some data =>
    obtain ⟨pool', -, heq⟩ := Option.map_eq_some_iff.mp h
    cases heq
    have hforward : ∀ d, Bounded [.forward id d] := fun d => List.forall_mem_singleton.mpr trivial
    rw [bounded_cons, hone, bounded_cons, hfirst]
    constructor
    · rintro ⟨hzero, -, hrest⟩
      exact ⟨hzero, fun _ _ _ => (bounded_forward (hfirst.mpr hzero)).mp hrest⟩
    · rintro ⟨hzero, hdog⟩
      exact ⟨hzero, hforward _, (bounded_forward (hfirst.mpr hzero)).mpr (hdog pool data hpull)⟩

/-- A gate for one connection that is open: it has been accepted and `data` arrives on it. -/
def arrival (data : List UInt8) : Option (Server × ℕ) :=
  let start : Server := ⟨⟨0, 1, 1, fun _ => none, fun _ => ⟨0, 0, 0⟩⟩, Pool.mread_create 1 4096, 4, 7, 0⟩
  (start._cb (some [.listen (.connected 5 true)]) [] []).bind fun r =>
    (r.1.pool.mread_poll (some [.socket 0 true none])).bind fun p =>
      (p.1.mread_pull 4 [.bytes data]).bind fun q =>
        q.2.map fun plen => ({ r.1 with pool := q.1 }, plen.toNat)

/-- A frame of two bytes. -/
theorem frame_bounded_two :
    ∃ self self' plen effects, arrival [0, 0, 0, 2, 65, 66] = some (self, plen) ∧
      self.frame 1 plen [] = some (self', effects) ∧ Bounded effects := by
  have hrun : ((arrival [0, 0, 0, 2, 65, 66]).bind fun p => (p.1.frame 1 p.2 []).map fun r =>
      (p.1.header_size, p.1.pool.rb.mem p.2, p.1.gate._id_to_agent 1, r.2)) =
        some (4, 0, none, [.pull 2, .forward 1 [65, 66]]) := by
    decide +kernel
  obtain ⟨⟨self, plen⟩, harrival, hrest⟩ := Option.bind_eq_some_iff.mp hrun
  obtain ⟨⟨self', effects⟩, hframe, heq⟩ := Option.map_eq_some_iff.mp hrest
  simp only [Prod.mk.injEq] at heq
  obtain ⟨h4, hzero, hnone, rfl⟩ := heq
  refine ⟨self, self', plen, _, harrival, hframe, (frame_bounded_iff h4 hframe).mpr ⟨hzero, ?_⟩⟩
  rintro pool ptr - ⟨-, -, conn, hconn, -⟩
  rw [hnone] at hconn
  cases hconn

/-- A header of four bytes 255: the length -1 is pulled and sent. -/
theorem length_negative :
    ∃ self self' plen effects, arrival [255, 255, 255, 255, 0] = some (self, plen) ∧
      self.frame 1 plen [] = some (self', effects) ∧ .pull (-1) ∈ effects ∧ ¬Bounded effects := by
  have hrun : ((arrival [255, 255, 255, 255, 0]).bind fun p => (p.1.frame 1 p.2 []).map Prod.snd) =
      some [.pull (-1), .forward 1 []] := by
    decide +kernel
  obtain ⟨⟨self, plen⟩, harrival, hrest⟩ := Option.bind_eq_some_iff.mp hrun
  obtain ⟨⟨self', effects⟩, hframe, rfl⟩ := Option.map_eq_some_iff.mp hrest
  refine ⟨self, self', plen, _, harrival, hframe, List.mem_cons_self .., fun h => ?_⟩
  exact absurd (h _ (List.mem_cons_self ..)).1 (by decide)

end Server

end DnServer.Gate
