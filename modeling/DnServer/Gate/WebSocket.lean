import DnServer.Gate.Accept
import DnServer.Gate.Places
import DnServer.Gate.Runs

/-!
# WebSocket frames

The branch of `main.c` for connections that speak WebSocket: two bytes of header, the length
in one of three forms, the mask and the payload are pulled one behind the other, and the
payload is unmasked where it lies. Of a length in eight bytes it looks at the first four,
which are the high ones.

* `Server.decodes_iff`: a frame that the stream of a connection begins with is decoded just
  when its parts are pulled and its length is not in eight bytes, or zero. The parts that
  were pulled stay where they are (`Pool.Front.pull`), so that the header and the mask are
  read as they came, and unmasking writes over the payload only.
-/

namespace DnServer.Gate

open DnServer.Lib

/-- `struct ws_frame_header`, the bit fields from the low bits up. -/
structure ws_frame_header where
  opcode : ℕ
  fin : Bool
  payload_len : ℕ
  mask : Bool
  deriving DecidableEq, Repr

/-- The header at `plen`. -/
def ws_frame_header.read (mem : Memory) (plen : ℕ) : ws_frame_header where
  opcode := (mem plen).toNat % 16
  fin := 128 ≤ (mem plen).toNat
  payload_len := (mem (plen + 1)).toNat % 128
  mask := 128 ≤ (mem (plen + 1)).toNat

/-- The loop over the payload at `data`, `i` rounds of it. -/
def unmask (mem : Memory) (data mask : ℕ) : ℕ → Memory
  | 0 => mem
  | i + 1 =>
    let mem := unmask mem data mask i
    Function.update mem (data + i) (mem (data + i) ^^^ mem (mask + i % 4))

namespace Server

/-! ## The branch -/

/-- From the payload on: it is pulled, unmasked and forwarded. -/
def webSocketData (self : Server) (id data_len : ℤ) (mask : ℕ) (env : List ReadResult) :
    Option (Server × List Effect) :=
  (self.pool.mread_pull data_len env).bind fun
    | (pool, none) =>
      (({ self with pool := pool }).missed id).map fun (r : Server × List Effect) =>
        (r.1, .pull data_len :: r.2)
    | (pool, some data) =>
      let mem := unmask pool.rb.mem data.toNat mask data_len.toNat
      ({ pool with rb := { pool.rb with mem := mem } }).mread_yield.map fun pool =>
        ({ self with pool := pool },
          .pull data_len :: .forward id (mem.bytes data.toNat data_len.toNat) ::
            self._forward id data_len)

/-- From the mask on. The pointer to a mask that the header does not announce is not set. -/
def webSocketMask (self : Server) (id data_len : ℤ) (plen : ℕ) (env : List ReadResult) :
    Option (Server × List Effect) :=
  if (ws_frame_header.read self.pool.rb.mem plen).mask then
    (self.pool.mread_pull 4 env).bind fun
      | (pool, none) => ({ self with pool := pool }).missed id
      | (pool, some mask) => ({ self with pool := pool }).webSocketData id data_len mask.toNat env
  else none

/-- From a length of `size` bytes on. -/
def webSocketLength (self : Server) (id size : ℤ) (header : ℕ) (env : List ReadResult) :
    Option (Server × List Effect) :=
  (self.pool.mread_pull size env).bind fun
    | (pool, none) => ({ self with pool := pool }).missed id
    | (pool, some plen) =>
      ({ self with pool := pool }).webSocketMask id
        (bigEndian size fun i => pool.rb.mem (plen.toNat + i)) header env

/-- The branch under `WEBSOCKET`, with the header at `plen`. -/
def webSocket (self : Server) (id : ℤ) (connection_id plen : ℕ) (env : List ReadResult) :
    Option (Server × List Effect) :=
  let header := ws_frame_header.read self.pool.rb.mem plen
  if header.fin = false then
    some ({ self with pool := self.pool.mread_close_client connection_id }, [])
  else if header.payload_len = 126 then self.webSocketLength id 2 plen env
  else if header.payload_len = 127 then self.webSocketLength id 8 plen env
  else self.webSocketMask id header.payload_len plen env

/-- `_cb` for header `W` on the connection that is polled. One of its pulls reads at most, and `env`
is what that one reads. -/
def _cbWebSocket (self : Server) (connection_id : ℕ) (env : List ReadResult) :
    Option (Server × List Effect) :=
  let id := (self.gate.map connection_id).uid
  (self.pool.mread_pull self.header_size env).bind fun
    | (pool, none) => ({ self with pool := pool }).missed id
    | (pool, some plen) =>
      if id = 0 then
        (self.gate._gen_id connection_id).toOption.bind fun r =>
          (({ self with pool := pool, gate := r.1 }).webSocket r.2 connection_id plen.toNat env).map
            fun (s : Server × List Effect) => (s.1, .opened r.2 :: s.2)
      else ({ self with pool := pool }).webSocket id connection_id plen.toNat env

end Server

/-! ## Frames as the protocol has them -/

/-- How a frame says its length. -/
inductive LengthForm
  | seven
  | sixteen
  | sixtyfour
  deriving DecidableEq, Repr

/-- The form can say the length. -/
def LengthForm.Fits : LengthForm → ℕ → Prop
  | .seven, n => n ≤ 125
  | .sixteen, n => n < 65536
  | .sixtyfour, n => n < 9223372036854775808

/-- The second byte's low bits and the bytes behind it. -/
def LengthForm.bytes : LengthForm → ℕ → ℕ × List UInt8
  | .seven, n => (n, [])
  | .sixteen, n => (126, Handshake.bigEndianBytes 2 n)
  | .sixtyfour, n => (127, Handshake.bigEndianBytes 8 n)

/-- The lengths of the parts: header, length, mask and payload. -/
def LengthForm.parts : LengthForm → ℕ → List ℤ
  | .seven, n => [2, 4, n]
  | .sixteen, n => [2, 2, 4, n]
  | .sixtyfour, n => [2, 8, 4, n]

/-- A payload with a mask over it, or without it again. -/
def masked (mask data : List UInt8) : List UInt8 :=
  data.mapIdx fun i b => b ^^^ mask.getD (i % 4) 0

/-- A final frame with a mask; `opcode` is 1 for text and 2 for bytes. -/
def encode (form : LengthForm) (opcode : ℕ) (mask payload : List UInt8) : List UInt8 :=
  [UInt8.ofNat (128 + opcode), UInt8.ofNat (128 + (form.bytes payload.length).1)] ++
    (form.bytes payload.length).2 ++ mask ++ masked mask payload

/-- Parts of these lengths are pulled one behind the other. -/
def Pool.pulls (p : Pool) (env : List ReadResult) : List ℤ → Bool
  | [] => true
  | size :: sizes =>
    match p.mread_pull size env with
    | some (q, some _) => q.pulls env sizes
    | _ => false

/-- The length of the payload is found, and the payload is forwarded. -/
def Decodes (effects : List Effect) (payload : List UInt8) : Prop :=
  .pull payload.length ∈ effects ∧ ∃ uid, .forward uid payload ∈ effects

/-! ## Unmasking -/

section unmask

variable {mem : Memory} {data mask a i n : ℕ} {payload key : List UInt8}

theorem unmask_outside (h : a < data ∨ data + i ≤ a) : unmask mem data mask i a = mem a := by
  induction i with
  | zero => rfl
  | succ i ih => exact (Function.update_of_ne (by omega) _ _).trans (ih (by omega))

theorem unmask_inside (hmask : ∀ j < 4, ∀ k < n, mask + j ≠ data + k) {k : ℕ} (hk : k < i)
    (hi : i ≤ n) : unmask mem data mask i (data + k) = mem (data + k) ^^^ mem (mask + k % 4) := by
  induction i with
  | zero => omega
  | succ i ih =>
    have hlast : mask + i % 4 < data ∨ data + i ≤ mask + i % 4 := by
      by_contra hno
      exact hmask (i % 4) (by omega) (mask + i % 4 - data) (by omega) (by omega)
    rcases Nat.lt_succ_iff_lt_or_eq.mp hk with hlt | rfl
    · exact (Function.update_of_ne (by omega) _ _).trans (ih hlt (by omega))
    · refine (Function.update_self ..).trans ?_
      rw [unmask_outside (.inr le_rfl), unmask_outside hlast]

theorem masked_masked : masked key (masked key payload) = payload := by
  apply List.ext_getElem?
  intro i
  unfold masked
  rw [List.getElem?_mapIdx, List.getElem?_mapIdx, Option.map_map]
  cases payload[i]? with
  | none => rfl
  | some b =>
    show some (b ^^^ key.getD (i % 4) 0 ^^^ key.getD (i % 4) 0) = some b
    rw [UInt8.xor_assoc, UInt8.xor_self, UInt8.xor_zero]

theorem length_masked : (masked key payload).length = payload.length := List.length_mapIdx

/-- The loop takes the mask off. -/
theorem unmask_bytes (hmask : ∀ j < 4, ∀ k < n, mask + j ≠ data + k)
    (hkey : mem.bytes mask 4 = key) (hdata : mem.bytes data n = masked key payload) :
    (unmask mem data mask n).bytes data n = payload := by
  have heq : (unmask mem data mask n).bytes data n = masked key (mem.bytes data n) := by
    apply List.ext_getElem?
    intro k
    by_cases hk : k < n
    · unfold masked
      rw [Memory.getElem?_bytes hk, List.getElem?_mapIdx, Memory.getElem?_bytes hk,
        unmask_inside hmask hk le_rfl, ← hkey, List.getD_eq_getElem?_getD,
        Memory.getElem?_bytes (Nat.mod_lt k (by omega))]
      rfl
    · rw [List.getElem?_eq_none (by rw [Memory.length_bytes]; omega),
        List.getElem?_eq_none (by rw [length_masked, Memory.length_bytes]; omega)]
  rw [heq, hdata, masked_masked]

end unmask

/-- The bytes of a header. -/
theorem read_header {mem : Memory} {plen opcode n : ℕ} (hop : opcode < 16) (hn : n < 128)
    (h : mem.bytes plen 2 = [UInt8.ofNat (128 + opcode), UInt8.ofNat (128 + n)]) :
    ws_frame_header.read mem plen = ⟨opcode, true, n, true⟩ := by
  have h0 := congrArg (·[0]?) h
  have h1 := congrArg (·[1]?) h
  simp only [Memory.getElem?_bytes (show 0 < 2 by omega),
    Memory.getElem?_bytes (show 1 < 2 by omega)] at h0 h1
  have hb0 : (mem plen).toNat = 128 + opcode := by
    rw [show mem plen = _ from Option.some.inj h0]
    exact UInt8.toNat_ofNat_of_lt' (by show 128 + opcode < 256; omega)
  have hb1 : (mem (plen + 1)).toNat = 128 + n := by
    rw [show mem (plen + 1) = _ from Option.some.inj h1]
    exact UInt8.toNat_ofNat_of_lt' (by show 128 + n < 256; omega)
  unfold ws_frame_header.read
  rw [hb0, hb1, show (128 + opcode) % 16 = opcode by omega, show (128 + n) % 128 = n by omega,
    decide_eq_true (show 128 ≤ 128 + opcode by omega), decide_eq_true (show 128 ≤ 128 + n by omega)]

namespace Server

/-! ## Lengths -/

theorem bigEndian_two {n : ℕ} (hn : n < 65536) :
    bigEndian 2 (fun j => (Handshake.bigEndianBytes 2 n).getD j 0) = n := by
  have h0 : (UInt8.ofNat (n / 256)).toNat = n / 256 :=
    UInt8.toNat_ofNat_of_lt' (by show n / 256 < 256; omega)
  have h1 : (UInt8.ofNat n).toNat = n % 256 := UInt8.toNat_ofNat'
  have hshift : (n / 256) <<< 8 ||| n % 256 = n / 256 * 256 + n % 256 := by
    rw [← Nat.shiftLeft_add_eq_or_of_lt (by omega), Nat.shiftLeft_eq]
  unfold bigEndian
  rw [if_pos rfl]
  simp only [Handshake.bigEndianBytes, List.getD_cons_zero, List.getD_cons_succ, pow_one, pow_zero,
    Nat.div_one, h0, h1, hshift]
  omega

/-- The high half of a length below 2^32. -/
theorem bigEndian_high {n : ℕ} (hn : n < 4294967296) :
    bigEndian 8 (fun j => (Handshake.bigEndianBytes 8 n).getD j 0) = 0 := by
  have hzero : ∀ k, 4 ≤ k → n / 256 ^ k = 0 := by
    intro k hk
    refine Nat.div_eq_of_lt (hn.trans_le ?_)
    calc 4294967296 = 256 ^ 4 := by norm_num
      _ ≤ 256 ^ k := Nat.pow_le_pow_right (by omega) hk
  have height : ∀ f, bigEndian 8 f = bigEndian 4 f := fun f => by
    unfold bigEndian
    rw [if_neg (by decide), if_neg (by decide)]
  rw [height, bigEndian_four]
  simp only [Handshake.bigEndianBytes, List.getD_cons_zero, List.getD_cons_succ,
    hzero 7 (by omega), hzero 6 (by omega), hzero 5 (by omega), hzero 4 (le_refl 4)]
  have h0 : (UInt8.ofNat 0).toNat = 0 := rfl
  rw [h0]
  exact Int.zero_bmod

theorem bigEndian_congr {size : ℤ} {f g : ℕ → UInt8} (hsize : size = 2 ∨ size = 8)
    (h : ∀ j < size.toNat, f j = g j) : bigEndian size f = bigEndian size g := by
  unfold bigEndian
  rcases hsize with rfl | rfl
  · rw [if_pos rfl, if_pos rfl, h 0 (by decide), h 1 (by decide)]
  · rw [h 0 (by decide), h 1 (by decide), h 2 (by decide), h 3 (by decide)]

/-! ## From part to part -/

variable {self self' : Server} {i k plen opcode n : ℕ} {id data_len size : ℤ} {env : List ReadResult}
  {effects : List Effect} {S key payload post len : List UInt8}

theorem not_decodes_missed (h : self.missed id = some (self', effects)) :
    ∀ uid data, Effect.forward uid data ∉ effects := fun _ => (missed_quiet h).2

theorem pull_not_forward (m : ℤ) : .pull m ∉ self._forward id data_len := by
  unfold _forward
  split
  · simp
  · split
    · simp
    · split
      · simp
      · split <;> simp

/-- The payload is decoded when it is pulled with its own length. -/
theorem webSocketData_iff (self : Server) {mask : ℕ} (h : self.pool.Front i S env) (h0 : 0 ≤ data_len)
    (hle : data_len ≤ 2147483628) (hkey : key.length = 4) (hmask : self.pool.Lies i k 4 mask)
    (hskip : self.pool.skip = k + 4) (hS : S.drop k = key ++ (masked key payload ++ post)) :
    (∃ self' effects, self.webSocketData id data_len mask env = some (self', effects) ∧
      Decodes effects payload) ↔
        data_len = payload.length ∧ self.pool.pulls env [data_len] = true := by
  unfold webSocketData Pool.pulls
  cases hpull : self.pool.mread_pull data_len env with
  | none =>
    refine ⟨?_, fun hno => by cases hno.2⟩
    rintro ⟨_, _, hno, -⟩
    cases hno
  | some r =>
    obtain ⟨pool, ptr⟩ := r
    cases ptr with
    | none =>
      refine ⟨?_, fun hno => by cases hno.2⟩
      rintro ⟨_, effects, hrun, -, uid, hforward⟩
      obtain ⟨⟨s, rest⟩, hmissed, heq⟩ := Option.map_eq_some_iff.mp hrun
      cases heq
      rcases List.mem_cons.mp hforward with heq | hmem
      · cases heq
      · exact absurd hmem (not_decodes_missed hmissed uid payload)
    | some data =>
      obtain ⟨hfront, -, hlies, hkept⟩ := h.pull h0 hle hpull
      obtain ⟨hmask', hapart⟩ := hkept k 4 mask hmask
      have hapart := hapart (by omega)
      -- the loop writes over the payload only, and the slot can be yielded
      obtain ⟨l, hl⟩ := hfront.sound
      have hsound := hl.rewrite (unmask pool.rb.mem data.toNat mask data_len.toNat)
        fun a ha => by
          have hin : data.toNat ≤ a ∧ a < data.toNat + data_len.toNat := by
            by_contra hno
            exact ha (unmask_outside (by omega))
          have := hl.lies_data hfront.active hfront.isOpen hlies
            (show a - data.toNat < data_len.toNat by omega)
          rwa [Nat.add_sub_cancel' hin.1] at this
      obtain ⟨p, hyield, -⟩ := hsound.yield hfront.active
      simp only [Option.bind_some, hyield, Option.map_some]
      constructor
      · rintro ⟨_, _, heq, hlength, -⟩
        cases heq
        rcases List.mem_cons.mp hlength with heq | hmem
        · exact ⟨(Effect.pull.inj heq).symm, rfl⟩
        · rcases List.mem_cons.mp hmem with heq | hmem
          · cases heq
          · exact absurd hmem (pull_not_forward _)
      · rintro ⟨hlength, -⟩
        have hrest : S.drop (k + 4) = masked key payload ++ post := by
          rw [← List.drop_drop, hS, ← hkey, List.drop_left]
        have hbytes : pool.rb.mem.bytes mask 4 = key := by
          rw [hfront.bytes hmask', hS, ← hkey, List.take_left]
        have hdata : pool.rb.mem.bytes data.toNat data_len.toNat = masked key payload := by
          rw [hfront.bytes hlies, hskip, show ((k : ℤ) + 4).toNat = k + 4 by omega, hrest, hlength,
            Int.toNat_natCast, ← @length_masked payload key, List.take_left]
        have hunmasked := unmask_bytes hapart hbytes hdata
        refine ⟨_, _, rfl, ?_, id, ?_⟩
        · rw [hlength]
          exact List.mem_cons_self
        · rw [hunmasked]
          exact List.mem_cons_of_mem _ List.mem_cons_self

/-- What was missed is not decoded. -/
theorem bind_pull_iff {f : Pool × Option ℤ → Option (Server × List Effect)}
    {P : Prop} {sizes : List ℤ} (hmissed : ∀ pool, f (pool, none) = ({ self with pool := pool }).missed id)
    (hsome : ∀ pool ptr, self.pool.mread_pull size env = some (pool, some ptr) →
      ((∃ self' effects, f (pool, some ptr) = some (self', effects) ∧ Decodes effects payload) ↔
        P ∧ pool.pulls env sizes = true)) :
    (∃ self' effects, (self.pool.mread_pull size env).bind f = some (self', effects) ∧
      Decodes effects payload) ↔ P ∧ self.pool.pulls env (size :: sizes) = true := by
  rw [Pool.pulls]
  cases hpull : self.pool.mread_pull size env with
  | none =>
    refine ⟨?_, fun hno => by cases hno.2⟩
    rintro ⟨_, _, hno, -⟩
    cases hno
  | some r =>
    obtain ⟨pool, ptr⟩ := r
    cases ptr with
    | none =>
      refine ⟨?_, fun hno => by cases hno.2⟩
      rintro ⟨_, _, hrun, -, uid, hforward⟩
      exact absurd hforward (not_decodes_missed ((hmissed pool).symm.trans hrun) uid payload)
    | some ptr => exact hsome pool ptr hpull

theorem webSocketMask_iff (self : Server) (h : self.pool.Front i S env) (h0 : 0 ≤ data_len)
    (hle : data_len ≤ 2147483628) (hkey : key.length = 4)
    (hheader : (ws_frame_header.read self.pool.rb.mem plen).mask = true)
    (hskip : self.pool.skip = k) (hS : S.drop k = key ++ (masked key payload ++ post)) :
    (∃ self' effects, self.webSocketMask id data_len plen env = some (self', effects) ∧
      Decodes effects payload) ↔
        data_len = payload.length ∧ self.pool.pulls env [4, data_len] = true := by
  unfold webSocketMask
  rw [if_pos hheader]
  refine bind_pull_iff (fun _ => rfl) fun pool ptr hpull => ?_
  obtain ⟨hfront, hskip', hlies, -⟩ := h.pull (by decide) (by decide) hpull
  rw [hskip, Int.toNat_natCast] at hlies
  exact webSocketData_iff { self with pool := pool } hfront h0 hle hkey hlies
    (hskip'.trans (by rw [hskip])) hS

/-- A length in bytes of its own. -/
theorem webSocketLength_iff (self : Server) (hsize : size = 2 ∨ size = 8) (h : self.pool.Front i S env)
    (hop : opcode < 16) (hn : n < 128) (hheader : self.pool.Lies i 0 2 plen)
    (hskip : self.pool.skip = 2) (hkey : key.length = 4) (hlen : len.length = size.toNat)
    (hvalue : bigEndian size (fun j => len.getD j 0) = data_len) (h0 : 0 ≤ data_len)
    (hle : data_len ≤ 2147483628)
    (hS : S = [UInt8.ofNat (128 + opcode), UInt8.ofNat (128 + n)] ++
      (len ++ (key ++ (masked key payload ++ post)))) :
    (∃ self' effects, self.webSocketLength id size plen env = some (self', effects) ∧
      Decodes effects payload) ↔
        data_len = payload.length ∧ self.pool.pulls env [size, 4, data_len] = true := by
  have hsize0 : 0 ≤ size ∧ size ≤ 2147483628 := by omega
  have hrest : S.drop 2 = len ++ (key ++ (masked key payload ++ post)) := by
    rw [hS]
    rfl
  refine bind_pull_iff (fun _ => rfl) fun pool ptr hpull => ?_
  obtain ⟨hfront, hskip', hlies, hkept⟩ := h.pull hsize0.1 hsize0.2 hpull
  have hread : ws_frame_header.read pool.rb.mem plen = ⟨opcode, true, n, true⟩ :=
    read_header hop hn (by rw [hfront.bytes (hkept 0 2 plen hheader).1, hS]; rfl)
  have hbytes := hfront.bytes hlies
  rw [hskip, ← hlen, show (2 : ℤ).toNat = 2 from rfl, hrest, List.take_left] at hbytes
  have hlength : bigEndian size (fun j => pool.rb.mem (ptr.toNat + j)) = data_len := by
    rw [← hvalue]
    refine bigEndian_congr hsize fun j hj => ?_
    have hat := Memory.getElem?_bytes (m := pool.rb.mem) (a := ptr.toNat) (n := len.length)
      (i := j) (by omega)
    rw [hbytes] at hat
    rw [List.getD_eq_getElem?_getD, hat]
    rfl
  dsimp only
  rw [hlength]
  have hbehind : S.drop (2 + len.length) = key ++ (masked key payload ++ post) := by
    rw [← List.drop_drop, hrest, List.drop_left]
  exact webSocketMask_iff { self with pool := pool } hfront h0 hle hkey (by rw [hread])
    (hskip'.trans (by rw [hskip, hlen]; omega)) hbehind

/-- The frame behind its header. -/
theorem webSocket_iff (self : Server) (id : ℤ) (connection_id : ℕ) (form : LengthForm) (h : self.pool.Front i S env)
    (hop : opcode < 16) (hheader : self.pool.Lies i 0 2 plen) (hskip : self.pool.skip = 2)
    (hkey : key.length = 4) (hlimit : (payload.length : ℤ) < frameLimit)
    (hfits : form.Fits payload.length) (hS : encode form opcode key payload ++ post = S) :
    (∃ self' effects, self.webSocket id connection_id plen env = some (self', effects) ∧
      Decodes effects payload) ↔ (form ≠ .sixtyfour ∨ payload = []) ∧
        self.pool.pulls env (form.parts payload.length).tail = true := by
  unfold frameLimit at hlimit
  have hread : ∀ m < 128, ∀ rest, S = [UInt8.ofNat (128 + opcode), UInt8.ofNat (128 + m)] ++ rest →
      ws_frame_header.read self.pool.rb.mem plen = ⟨opcode, true, m, true⟩ := by
    intro m hm rest hrest
    exact read_header hop hm (by rw [h.bytes hheader, hrest]; rfl)
  unfold webSocket
  cases form with
  | seven =>
    have hn : payload.length ≤ 125 := hfits
    simp only [encode, LengthForm.bytes, List.append_assoc, List.nil_append] at hS
    have hread := hread payload.length (by omega) _ hS.symm
    have h126 : payload.length ≠ 126 := by omega
    have h127 : payload.length ≠ 127 := by omega
    simp only [hread, h126, h127, Bool.true_eq_false, if_false]
    refine (webSocketMask_iff self h (by omega) (by omega) hkey (by rw [hread]) (k := 2) hskip
      (by rw [← hS]; rfl)).trans ?_
    exact ⟨fun hd => ⟨.inl nofun, hd.2⟩, fun hd => ⟨rfl, hd.2⟩⟩
  | sixteen =>
    simp only [encode, LengthForm.bytes, List.append_assoc] at hS
    simp only [hread 126 (by omega) _ hS.symm, if_true, Bool.true_eq_false, if_false]
    refine (webSocketLength_iff self (.inl rfl) h hop (show 126 < 128 by omega) hheader hskip hkey rfl
      (bigEndian_two hfits) (by omega) (by omega) hS.symm).trans ?_
    exact ⟨fun hd => ⟨.inl nofun, hd.2⟩, fun hd => ⟨rfl, hd.2⟩⟩
  | sixtyfour =>
    simp only [encode, LengthForm.bytes, List.append_assoc] at hS
    simp only [hread 127 (by omega) _ hS.symm, if_true, Bool.true_eq_false, if_false,
      show ¬127 = 126 by omega]
    refine (webSocketLength_iff self (.inr rfl) h hop (show 127 < 128 by omega) hheader hskip hkey rfl
      (bigEndian_high (n := payload.length) (by omega)) (by omega) (by omega) hS.symm).trans ?_
    constructor
    · rintro ⟨hzero, hpulls⟩
      refine ⟨.inr (List.eq_nil_of_length_eq_zero (by omega)), ?_⟩
      show self.pool.pulls env [8, 4, (payload.length : ℤ)] = true
      rw [← hzero]
      exact hpulls
    · rintro ⟨hnil, hpulls⟩
      obtain rfl := hnil.resolve_left fun hne => hne rfl
      exact ⟨rfl, hpulls⟩

/-- **WebSocket frames.** A masked final frame at the front of what a connection sends is decoded
in a callback just when its parts are pulled, one behind the other, and its length is not in eight
bytes or the payload is empty. -/
theorem decodes_iff (self : Server) (form : LengthForm) (h : self.pool.Front i S env) (hskip : self.pool.skip = 0)
    (hsize : self.header_size = 2)
    (hgen : (self.gate.map i).uid = 0 → ∃ r, self.gate._gen_id i = .ok r)
    (hop : opcode = 1 ∨ opcode = 2) (hkey : key.length = 4)
    (hlimit : (payload.length : ℤ) < frameLimit) (hfits : form.Fits payload.length)
    (hS : encode form opcode key payload <+: S) :
    (∃ self' effects, self._cbWebSocket i env = some (self', effects) ∧ Decodes effects payload) ↔
      (form ≠ .sixtyfour ∨ payload = []) ∧
        self.pool.pulls env (form.parts payload.length) = true := by
  obtain ⟨post, hpost⟩ := hS
  have hparts : form.parts payload.length =
      self.header_size :: (form.parts payload.length).tail := by
    rw [hsize]
    cases form <;> rfl
  unfold _cbWebSocket
  dsimp only
  rw [hparts]
  refine bind_pull_iff (fun _ => rfl) fun pool ptr hpull => ?_
  rw [hsize] at hpull
  obtain ⟨hfront, hskip', hlies, -⟩ := h.pull (by decide) (by decide) hpull
  rw [hskip] at hlies hskip'
  dsimp only
  by_cases hid : (self.gate.map i).uid = 0
  · obtain ⟨r, hr⟩ := hgen hid
    rw [if_pos hid, hr]
    simp only [Except.toOption, Option.bind_some]
    refine Iff.trans ?_ (webSocket_iff { self with pool := pool, gate := r.1 } r.2 i form
      hfront (by omega) hlies hskip' hkey hlimit hfits hpost)
    -- the connection is told to be open first
    constructor
    · rintro ⟨_, _, hrun, hlength, uid, hforward⟩
      obtain ⟨⟨s, effects⟩, hbranch, heq⟩ := Option.map_eq_some_iff.mp hrun
      cases heq
      refine ⟨s, effects, hbranch, (List.mem_cons.mp hlength).resolve_left nofun, uid, ?_⟩
      exact (List.mem_cons.mp hforward).resolve_left nofun
    · rintro ⟨s, effects, hrun, hlength, uid, hforward⟩
      refine ⟨s, .opened r.2 :: effects, Option.map_eq_some_iff.mpr ⟨_, hrun, rfl⟩, ?_, uid, ?_⟩
      · exact List.mem_cons_of_mem _ hlength
      · exact List.mem_cons_of_mem _ hforward
  · rw [if_neg hid]
    exact webSocket_iff { self with pool := pool } _ i form hfront (by omega) hlies hskip'
      hkey hlimit hfits hpost

/-- A gate whose one connection has read its handshake and is polled again. -/
def upgraded : Option Server :=
  (([.poll (some [.listen (.connected 5 true)]), .poll (some [.socket 0 true none]), .pull 2 [],
    .poll (some [.socket 0 true none])] : List PoolOp).foldlM Pool.exec
      (Pool.mread_create 1 4096)).map
    fun pool => ⟨⟨0, 1, 1, fun _ => none, fun _ => ⟨0, 0, 0⟩⟩, pool, 2, 0, 0⟩

/-- The payload "hi" with a length in two bytes, and a frame behind it. -/
theorem decodes_sixteen : ∃ self self' effects, upgraded = some self ∧
    self._cbWebSocket 0 [.bytes (encode .sixteen 1 [1, 2, 3, 4] [104, 105] ++ [129])] =
      some (self', effects) ∧ Decodes effects [104, 105] := by
  have hrun : upgraded.map (fun s => (s.pool.active, (s.pool.sockets 0).status,
      (s.pool.sockets 0).node, s.pool.skip,
      s.pool.pulls [.bytes (encode .sixteen 1 [1, 2, 3, 4] [104, 105] ++ [129])]
        (LengthForm.sixteen.parts 2))) = some (some 0, .POLLIN, none, 0, true) := by
    decide +kernel
  obtain ⟨self, hself, heq⟩ := Option.map_eq_some_iff.mp hrun
  obtain ⟨pool, hpool, rfl⟩ := Option.map_eq_some_iff.mp hself
  simp only [Prod.mk.injEq] at heq
  obtain ⟨hactive, hstatus, hnode, hskip, hpulls⟩ := heq
  have hreach : ((Pool.system 1 4096).restrict Pool.Fitting).Reachable pool := by
    refine Pool.reachable_foldlM (T := Pool.Fitting) (.init ⟨Nat.one_pos, rfl⟩)
      (fun p hp op hop => ?_) hpool
    obtain ⟨l, hl⟩ := (Pool.sound (by decide) (by decide)).invariant _ hp
    simp only [List.mem_cons, List.not_mem_nil, or_false] at hop
    rcases hop with rfl | rfl | rfl | rfl
    · trivial
    · trivial
    · exact ⟨by decide, hl.short_fits (by decide) (by decide)⟩
    · trivial
  obtain ⟨l, hl⟩ := (Pool.sound (by decide) (by decide)).invariant _ hreach
  have hnil := Pool.contents_of_none hnode
  have hfront : pool.Front 0 (encode .sixteen 1 [1, 2, 3, 4] [104, 105] ++ [129])
      [.bytes (encode .sixteen 1 [1, 2, 3, 4] [104, 105] ++ [129])] := by
    refine ⟨⟨l, hl⟩, hactive, by rw [hstatus]; rfl, by rw [hstatus]; exact nofun, ?_, fun _ => ?_⟩
    · rw [hnil]
      exact List.nil_prefix
    · rw [hnil]
      exact List.prefix_rfl
  have hfits : LengthForm.sixteen.Fits ([104, 105] : List UInt8).length :=
    show 2 < 65536 by decide
  obtain ⟨self', effects, hcb, hdecodes⟩ := (decodes_iff
    ⟨⟨0, 1, 1, fun _ => none, fun _ => ⟨0, 0, 0⟩⟩, pool, 2, 0, 0⟩ .sixteen hfront hskip rfl
    (fun _ => ⟨_, rfl⟩) (.inl rfl) rfl (by decide) hfits (List.prefix_append _ _)).mpr
    ⟨.inl nofun, hpulls⟩
  exact ⟨_, self', effects, hself, hcb, hdecodes⟩

/-- The same payload with a length in eight bytes is a frame of length 0. -/
theorem sixtyfour_empty : ∃ self self' effects, upgraded = some self ∧
    self._cbWebSocket 0 [.bytes (encode .sixtyfour 1 [1, 2, 3, 4] [104, 105])] =
      some (self', effects) ∧ effects = [.opened 1, .pull 0, .forward 1 []] ∧
      ¬Decodes effects [104, 105] := by
  have hrun : (upgraded.bind fun self =>
      (self._cbWebSocket 0 [.bytes (encode .sixtyfour 1 [1, 2, 3, 4] [104, 105])]).map Prod.snd) =
        some [.opened 1, .pull 0, .forward 1 []] := by
    decide +kernel
  obtain ⟨self, hself, hrest⟩ := Option.bind_eq_some_iff.mp hrun
  obtain ⟨⟨self', effects⟩, hcb, rfl⟩ := Option.map_eq_some_iff.mp hrest
  refine ⟨self, self', _, hself, hcb, rfl, ?_⟩
  rintro ⟨hlength, -⟩
  simp at hlength

end Server

end DnServer.Gate
