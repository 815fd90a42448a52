import DnServer.Connection.Socket

/-!
# Blocks in the socket buffer

`writeblock` puts the length of a payload before it, in two or four bytes, and `readblock`
takes such a block out of the buffer once it is there. It looks at the header as soon as
two bytes are unread, and keeps the length in a `uint16_t`.

* `block_round_trip`: `Arrived` has the unread bytes as what came in so far; then the
  header is there in part, whole, or with all of the payload, and one lemma says for
  each what a call does.
-/

namespace DnServer.Connection

open DnServer.Lib
open DnServer.Redis (window window_drop window_take length_window)

/-! ## The code -/

/-- The header of `_writeblock`, big-endian. -/
def blockHead (header : ℤ) (sz : ℕ) : Bytes :=
  if header = 2 then [UInt8.ofNat (sz >>> 8 &&& 0xff), UInt8.ofNat (sz &&& 0xff)]
  else
    [UInt8.ofNat (sz >>> 24 &&& 0xff), UInt8.ofNat (sz >>> 16 &&& 0xff),
      UInt8.ofNat (sz >>> 8 &&& 0xff), UInt8.ofNat (sz &&& 0xff)]

/-- `_writeblock`: what it sends, or returns where there is nothing to send it to. -/
def writeblock (header : ℤ) (buffer : Bytes) : Except String Bytes :=
  if header = 2 then
    if 65535 < buffer.length then .error ("Too big package " ++ toString (toInt buffer.length))
    else .ok (blockHead header buffer.length ++ buffer)
  else if header ≠ 4 then .error "block header must be 2 or 4 bytes"
  else .ok (blockHead header buffer.length ++ buffer)

/-- `len` of `_readblock`, a `uint16_t`. -/
def blockLen (header_size : ℤ) (buf : Bytes) : ℕ :=
  let byte (i : ℕ) : ℕ := (buf.getD i 0).toNat
  if header_size = 2 then (byte 0 <<< 8 ||| byte 1) % 65536
  else (byte 0 <<< 24 ||| (byte 1 <<< 16 ||| (byte 2 <<< 8 ||| byte 3))) % 65536

/-- What a call of `_readblock` does: the bytes it looked at as a header, the payload it
handed on and the buffer it left. -/
structure Attempt where
  header : ℤ
  delivered : Option Bytes
  buffer : SocketBuffer
  deriving DecidableEq, Repr

/-- `_readblock`, from the `int` on that its second argument is cut to; the function it is
given takes the payload and returns. -/
def readblock (b : SocketBuffer) (header_size : ℤ) : Option (Except String Attempt) :=
  let size := toInt (b.size - b.read)
  if size < 2 then some (.ok ⟨0, none, b⟩)
  else if header_size ≠ 2 ∧ header_size ≠ 4 then some (.error "header size must be 2 or 4")
  else
    (load b.buffer b.read header_size).bind fun buf =>
      let len : ℤ := blockLen header_size buf
      if size < header_size + len then some (.ok ⟨header_size, none, b⟩)
      else
        (load b.buffer (b.read + header_size) len).map fun msg =>
          .ok ⟨header_size, some msg, { b with read := toInt (b.read + (len + header_size)) }⟩

/-! ## Headers -/

theorem shiftLeft_or {b k : ℕ} (a : ℕ) (h : b < 2 ^ k) : a <<< k ||| b = a * 2 ^ k + b := by
  rw [← Nat.shiftLeft_add_eq_or_of_lt h, Nat.shiftLeft_eq]

theorem toNat_byte (n : ℕ) : (UInt8.ofNat (n &&& 0xff)).toNat = n % 256 := by
  rw [Nat.and_two_pow_sub_one_eq_mod n 8, UInt8.toNat_ofNat']
  exact Nat.mod_mod n 256

/-- A length that is written is read modulo 2¹⁶. -/
theorem blockLen_blockHead (header : ℤ) (sz : ℕ) :
    blockLen header (blockHead header sz) = sz % 65536 := by
  unfold blockLen blockHead
  split_ifs with h2
  · simp only [List.getD_cons_zero, List.getD_cons_succ]
    rw [toNat_byte, toNat_byte, shiftLeft_or _ (by omega), Nat.shiftRight_eq_div_pow]
    omega
  · simp only [List.getD_cons_zero, List.getD_cons_succ]
    rw [toNat_byte, toNat_byte, toNat_byte, toNat_byte, shiftLeft_or (k := 8) _ (by omega),
      shiftLeft_or (k := 16) _ (by omega), shiftLeft_or (k := 24) _ (by omega)]
    simp only [Nat.shiftRight_eq_div_pow]
    omega

theorem length_blockHead {header : ℕ} (h : header = 2 ∨ header = 4) (sz : ℕ) :
    (blockHead header sz).length = header := by
  rcases h with rfl | rfl <;> rfl

/-- What an accepted payload becomes. -/
theorem writeblock_ok {header : ℤ} {payload block : Bytes}
    (h : writeblock header payload = .ok block) :
    block = blockHead header payload.length ++ payload ∧
      (header = 2 ∧ payload.length < 65536 ∨ header = 4) := by
  unfold writeblock at h
  split_ifs at h with h2 hbig h4
  · exact ⟨(Except.ok.inj h).symm, .inl ⟨h2, by omega⟩⟩
  · exact ⟨(Except.ok.inj h).symm, .inr (not_not.mp h4)⟩

/-! ## One call -/

variable {u : Redis.Buffer} {h : ℕ}

/-- `readblock` with its header and a length: the next `h + len` bytes without the first `h`,
if so many are there. -/
def attempt (u : Redis.Buffer) (h len : ℕ) : Attempt :=
  match u.readBytes (h + len) with
  | none => ⟨h, none, ofBuffer u⟩
  | some (d, v) => ⟨h, some (d.drop h), ofBuffer v⟩

theorem attempt_header (u : Redis.Buffer) (h len : ℕ) : (attempt u h len).header = h := by
  unfold attempt
  split <;> rfl

/-- Too few bytes: nothing happens. -/
theorem attempt_short {len : ℕ} (hlen : u.unread.length < h + len) :
    attempt u h len = ⟨h, none, ofBuffer u⟩ := by
  rw [Redis.Buffer.length_unread] at hlen
  unfold attempt
  rw [Redis.Buffer.readBytes, dif_neg (by omega)]

/-- Enough bytes: they are taken. -/
theorem attempt_full {len : ℕ} (hlen : h + len ≤ u.unread.length) :
    (attempt u h len).delivered = some ((u.unread.take (h + len)).drop h) ∧
      (attempt u h len).buffer.unread = u.unread.drop (h + len) := by
  have hread := u.readBytes_eq (h + len)
  rw [if_pos hlen] at hread
  obtain ⟨⟨d, v⟩, hd, heq⟩ := Option.map_eq_some_iff.mp hread
  obtain ⟨rfl, hv⟩ := Prod.mk.inj heq
  dsimp only at hv
  unfold attempt
  rw [hd]
  exact ⟨rfl, (unread_ofBuffer v).trans hv⟩

theorem Small.readblock_few (hu : Small u) (hfew : u.unread.length < 2) (header : ℤ) :
    readblock (ofBuffer u) header = some (.ok ⟨0, none, ofBuffer u⟩) := by
  rw [Redis.Buffer.length_unread] at hfew
  unfold readblock ofBuffer
  dsimp only
  rw [hu.old_size, if_pos (by omega)]

/-- From two bytes on the header is loaded, and with its length goes the attempt. -/
theorem Small.readblock_eq (hu : Small u) (hh : h = 2 ∨ h = 4) (htwo : 2 ≤ u.unread.length) :
    readblock (ofBuffer u) h =
      (load u.buffer u.read h).map fun buf => .ok (attempt u h (blockLen h buf)) := by
  have h1 := u.read_le
  have h2 := u.size_le
  have hlt : u.buffer.length < 2147483648 := hu
  rw [Redis.Buffer.length_unread] at htwo
  unfold readblock ofBuffer
  dsimp only
  rw [hu.old_size, if_neg (by omega), if_neg (by omega)]
  cases load u.buffer u.read h with
  | none => rfl
  | some buf =>
    rw [Option.bind_some, Option.map_some]
    split_ifs with hshort
    · rw [attempt_short (by rw [Redis.Buffer.length_unread]; omega)]
      rfl
    · have hall : h + blockLen h buf ≤ u.size - u.read := by omega
      rw [attempt, Redis.Buffer.readBytes, dif_pos hall]
      simp only [← Nat.cast_add]
      rw [load_eq (by omega), toInt_eq (by omega), window_drop, Nat.add_sub_cancel_left,
        Nat.add_comm (blockLen h buf) h]
      rfl

/-! ## A block on its way -/

/-- What is done with a buffer that blocks come in through. -/
inductive FrameOp
  | call (op : BufferOp)
  | readblock (header_size : ℤ)
  deriving DecidableEq, Repr

/-- The buffer as long as all counts fit. -/
def framing : TSys SocketBuffer FrameOp where
  init b := b = .new
  step
    | b, .call op, b' => Fits b.unread op ∧ ∃ ret, op.exec b = some (b', ret)
    | b, .readblock header_size, b' =>
      ∃ a, readblock b header_size = some (.ok a) ∧ a.buffer = b'

/-- From a buffer with nothing unread, `some chunk` arrives or, as `none`, a `readblock` that
hands nothing on is tried; kept beside the buffer is what has arrived. -/
def arriving (header : ℤ) : TSys (SocketBuffer × Bytes) (Option Bytes) where
  init p := framing.Reachable p.1 ∧ p.1.unread = [] ∧ p.2 = []
  step
    | p, some chunk, q =>
      p.2.length + chunk.length < 2147483648 ∧ p.1.push chunk = some q.1 ∧ q.2 = p.2 ++ chunk
    | p, none, q =>
      ∃ a, readblock p.1 header = some (.ok a) ∧ a.delivered = none ∧ q = (a.buffer, p.2)

/-- `readblock` looks at bytes that have arrived only, and hands on the payload and leaves
the rest if the block is there, or does nothing. -/
def Delivers (b : SocketBuffer) (arrived : Bytes) (header : ℤ) (payload block : Bytes) : Prop :=
  ∃ a, readblock b header = some (.ok a) ∧ a.header ≤ arrived.length ∧
    if block <+: arrived then
      a.delivered = some payload ∧ a.buffer.unread = arrived.drop block.length
    else a.delivered = none ∧ a.buffer = b

/-- With a header of four bytes, two or three bytes are not there alone, and the length fits
a `uint16_t` unless fewer bytes are there than what is left of it in one. -/
def Covered (header : ℤ) (sz n : ℕ) : Prop :=
  header = 2 ∨ n < 2 ∨ 4 ≤ n ∧ (sz < 65536 ∨ n < 4 + sz % 65536)

/-- Whatever `readblock` does, the counts stay small, and when it hands nothing on the buffer
is as before. -/
theorem Small.after_readblock (hu : Small u) {header : ℤ} {a : Attempt}
    (ha : readblock (ofBuffer u) header = some (.ok a)) :
    ∃ v, a.buffer = ofBuffer v ∧ Small v ∧ (a.delivered = none → v = u) := by
  rcases Nat.lt_or_ge u.unread.length 2 with hfew | htwo
  · rw [hu.readblock_few hfew] at ha
    obtain rfl := Except.ok.inj (Option.some.inj ha)
    exact ⟨u, rfl, hu, fun _ => rfl⟩
  · by_cases hh : header = 2 ∨ header = 4
    · obtain ⟨h, rfl, htwofour⟩ : ∃ h : ℕ, header = h ∧ (h = 2 ∨ h = 4) := by
        rcases hh with rfl | rfl
        · exact ⟨2, rfl, .inl rfl⟩
        · exact ⟨4, rfl, .inr rfl⟩
      rw [hu.readblock_eq htwofour htwo] at ha
      obtain ⟨buf, -, hbuf⟩ := Option.map_eq_some_iff.mp ha
      obtain rfl := Except.ok.inj hbuf
      unfold attempt Redis.Buffer.readBytes
      split_ifs with hall
      · exact ⟨_, rfl, hu, fun hnone => hnone.elim⟩
      · exact ⟨u, rfl, hu, fun _ => rfl⟩
    · have h1 := u.read_le
      rw [Redis.Buffer.length_unread] at htwo
      unfold readblock ofBuffer at ha
      dsimp only at ha
      rw [hu.old_size, if_neg (by omega), if_pos (not_or.mp hh)] at ha
      cases ha

/-- A buffer in use is one whose counts are small. -/
theorem framing_small {b : SocketBuffer} (h : framing.Reachable b) :
    ∃ u, b = ofBuffer u ∧ Small u := by
  induction h with
  | init h0 => exact ⟨.new, h0, show 0 < 2147483648 by decide⟩
  | @step b e b' _ hstep ih =>
    obtain ⟨u, rfl, hu⟩ := ih
    cases e with
    | call op =>
      obtain ⟨hfit, ret, hexec⟩ := hstep
      rw [unread_ofBuffer] at hfit
      obtain ⟨v, ret', hv, hsmall, -⟩ := hu.exec hfit
      obtain ⟨rfl, -⟩ := Prod.mk.inj (Option.some.inj (hv.symm.trans hexec))
      exact ⟨v, rfl, hsmall⟩
    | readblock header =>
      obtain ⟨a, ha, rfl⟩ := hstep
      obtain ⟨v, hv, hsmall, -⟩ := hu.after_readblock ha
      exact ⟨v, hv, hsmall⟩

/-- What has arrived is what is unread. -/
def Arrived (p : SocketBuffer × Bytes) : Prop := ∃ u, p.1 = ofBuffer u ∧ Small u ∧ u.unread = p.2

theorem Arrived.inductive (header : ℤ) : (arriving header).Inductive Arrived where
  init := by
    rintro ⟨b, arrived⟩ ⟨hreach, hnone, harrived⟩
    dsimp only at hreach hnone harrived
    obtain ⟨u, rfl, hu⟩ := framing_small hreach
    exact ⟨u, rfl, hu, by rw [harrived, ← hnone, unread_ofBuffer]⟩
  step := by
    rintro ⟨b, arrived⟩ e ⟨b', arrived'⟩ _ ⟨u, hb, hu, hunread⟩ hstep
    dsimp only at hb hunread
    subst hb hunread
    cases e with
    | some chunk =>
      obtain ⟨hfit, hpush, rfl⟩ := hstep
      obtain ⟨heq, hsmall⟩ := hu.push hfit
      obtain rfl := Option.some.inj (heq.symm.trans hpush)
      exact ⟨u.push chunk, rfl, hsmall, Redis.Buffer.unread_push u chunk⟩
    | none =>
      obtain ⟨a, ha, hnone, heq⟩ := hstep
      obtain ⟨rfl, rfl⟩ := Prod.mk.inj heq
      obtain ⟨v, hv, hsmall, hsame⟩ := hu.after_readblock ha
      obtain rfl := hsame hnone
      exact ⟨v, hv, hsmall, rfl⟩

/-! ## Delivery -/

/-- Two comparable byte sequences begin alike as far as both go. -/
theorem take_of_comparable {a b : Bytes} {n : ℕ} (h : a <+: b ∨ b <+: a) (ha : n ≤ a.length)
    (hb : n ≤ b.length) : a.take n = b.take n := by
  rcases h with ⟨rest, rfl⟩ | ⟨rest, rfl⟩
  · rw [List.take_append_of_le_length ha]
  · rw [List.take_append_of_le_length hb]

/-- Of comparable byte sequences the shorter one begins the other. -/
theorem prefix_of_comparable {a b : Bytes} (h : a <+: b ∨ b <+: a) (hle : b.length ≤ a.length) :
    b <+: a := by
  rcases h with h | h
  · exact (h.eq_of_length (le_antisymm h.length_le hle)) ▸ List.prefix_rfl
  · exact h

section Delivery

variable {payload : Bytes}

/-- Two or three bytes are not a header of four, but it is looked at. -/
theorem Small.not_delivers_early (hu : Small u) {block : Bytes} (htwo : 2 ≤ u.unread.length)
    (hfour : u.unread.length < 4) : ¬ Delivers (ofBuffer u) u.unread 4 payload block := by
  rintro ⟨a, ha, hheader, -⟩
  have heq := hu.readblock_eq (h := 4) (.inr rfl) htwo
  obtain ⟨buf, -, hbuf⟩ := Option.map_eq_some_iff.mp (heq.symm.trans ha)
  obtain rfl := Except.ok.inj hbuf
  rw [attempt_header] at hheader
  omega

/-- With fewer than two bytes nothing is tried. -/
theorem Small.delivers_few (hu : Small u) (hh : h = 2 ∨ h = 4) (hfew : u.unread.length < 2) :
    Delivers (ofBuffer u) u.unread h payload (blockHead h payload.length ++ payload) := by
  refine ⟨_, hu.readblock_few hfew h, Int.natCast_nonneg _, ?_⟩
  rw [if_neg]
  · exact ⟨rfl, rfl⟩
  · intro hpre
    have := hpre.length_le
    rw [List.length_append, length_blockHead hh] at this
    omega

variable (hu : Small u) (hh : h = 2 ∨ h = 4)
  (hpart : u.unread <+: blockHead h payload.length ++ payload ∨
    blockHead h payload.length ++ payload <+: u.unread)
include hu hh hpart

/-- Once the header is there, the attempt is made with the length it says. -/
theorem Small.readblock_head (hall : h ≤ u.unread.length) :
    readblock (ofBuffer u) h = some (.ok (attempt u h (payload.length % 65536))) := by
  have h1 := u.read_le
  have h2 := u.size_le
  have hlen := u.length_unread
  have hhead := length_blockHead hh payload.length
  have hwindow : window u.buffer u.read h = blockHead h payload.length := by
    have htake := take_of_comparable (n := h) hpart hall (by rw [List.length_append]; omega)
    rw [List.take_left' hhead, Redis.Buffer.unread, window_take (by omega)] at htake
    exact htake
  rw [hu.readblock_eq hh (by omega), load_eq (by omega), hwindow, Option.map_some,
    blockLen_blockHead]

/-- While the whole block is not there: nothing is handed on. -/
theorem Small.delivers_part (hall : h ≤ u.unread.length)
    (hshort : u.unread.length < h + payload.length % 65536) :
    Delivers (ofBuffer u) u.unread h payload (blockHead h payload.length ++ payload) := by
  have hhead := length_blockHead hh payload.length
  have hle := Nat.mod_le payload.length 65536
  refine ⟨_, hu.readblock_head hh hpart hall, ?_, ?_⟩
  · rw [attempt_header]
    omega
  · rw [attempt_short hshort, if_neg]
    · exact ⟨rfl, rfl⟩
    · intro hpre
      have := hpre.length_le
      rw [List.length_append] at this
      omega

/-- The whole block is there: it is taken, and what follows stays. -/
theorem Small.delivers_block (hsmall : payload.length < 65536)
    (hall : h + payload.length ≤ u.unread.length) :
    Delivers (ofBuffer u) u.unread h payload (blockHead h payload.length ++ payload) := by
  have hhead := length_blockHead hh payload.length
  have hlen : (blockHead h payload.length ++ payload).length = h + payload.length := by
    rw [List.length_append, hhead]
  have hattempt := hu.readblock_head hh hpart (by omega)
  rw [Nat.mod_eq_of_lt hsmall] at hattempt
  have hpre := prefix_of_comparable hpart (by omega)
  obtain ⟨hdelivered, hrest⟩ := attempt_full hall
  refine ⟨_, hattempt, ?_, ?_⟩
  · rw [attempt_header]
    omega
  · rw [if_pos hpre, hlen]
    refine ⟨hdelivered.trans ?_, hrest⟩
    have htake : u.unread.take (h + payload.length) = blockHead h payload.length ++ payload := by
      rw [← hlen]
      exact (List.prefix_iff_eq_take.mp hpre).symm
    rw [htake, List.drop_left' hhead]

/-- A length of which 16 bits are too few: other bytes are handed on than the payload. -/
theorem Small.not_delivers_cut (hbig : 65536 ≤ payload.length)
    (hall : h + payload.length % 65536 ≤ u.unread.length) :
    ¬ Delivers (ofBuffer u) u.unread h payload (blockHead h payload.length ++ payload) := by
  rintro ⟨a, ha, -, hdone⟩
  have hattempt := hu.readblock_head hh hpart (by omega)
  obtain rfl := Except.ok.inj (Option.some.inj (hattempt.symm.trans ha))
  obtain ⟨hdelivered, -⟩ := attempt_full hall
  rw [hdelivered] at hdone
  split_ifs at hdone
  · have hlen := congrArg List.length (Option.some.inj hdone.1)
    rw [List.length_drop, List.length_take_of_le hall] at hlen
    omega
  · exact hdone.1.elim

end Delivery

/-- A call delivers as it should just when the block and the bytes there are covered. -/
theorem Small.delivers_iff {payload : Bytes} (hu : Small u)
    (hh : h = 2 ∧ payload.length < 65536 ∨ h = 4)
    (hpart : u.unread <+: blockHead h payload.length ++ payload ∨
      blockHead h payload.length ++ payload <+: u.unread) :
    Delivers (ofBuffer u) u.unread h payload (blockHead h payload.length ++ payload) ↔
      Covered h payload.length u.unread.length := by
  have hcases : h = 2 ∨ h = 4 := by omega
  unfold Covered
  constructor
  · intro hdelivers
    by_contra hnot
    obtain rfl : h = 4 := by omega
    rcases Nat.lt_or_ge u.unread.length 4 with hfour | hfour
    · exact hu.not_delivers_early (by omega) hfour hdelivers
    · exact hu.not_delivers_cut hcases hpart (by omega) (by omega) hdelivers
  · intro hcov
    rcases Nat.lt_or_ge u.unread.length 2 with hfew | htwo
    · exact hu.delivers_few hcases hfew
    · rcases Nat.lt_or_ge u.unread.length (h + payload.length % 65536) with hshort | hfull
      · exact hu.delivers_part hcases hpart (by omega) hshort
      · have hsmall : payload.length < 65536 := by omega
        rw [Nat.mod_eq_of_lt hsmall] at hfull
        exact hu.delivers_block hcases hpart hsmall hfull

/-- A block that `writeblock` made comes in in pieces behind which anything may follow, and
`readblock` is tried in between: a call hands the payload on if and only if all of the block
is there, and looks at nothing else, just when the header is of two bytes, or is not there in
part after its second byte and does not say more than a `uint16_t` holds. -/
theorem block_round_trip {header : ℤ} {payload block : Bytes}
    (hblock : writeblock header payload = .ok block) {b : SocketBuffer} {arrived : Bytes}
    (harrived : (arriving header).Reachable (b, arrived))
    (hpart : arrived <+: block ∨ block <+: arrived) :
    Delivers b arrived header payload block ↔
      Covered header payload.length arrived.length := by
  obtain ⟨u, hb, hu, hunread⟩ := (Arrived.inductive header).invariant _ harrived
  dsimp only at hb hunread
  subst hb hunread
  obtain ⟨rfl, hheader⟩ := writeblock_ok hblock
  rcases hheader with ⟨rfl, hsmall⟩ | rfl
  · exact hu.delivers_iff (h := 2) (.inl ⟨rfl, hsmall⟩) hpart
  · exact hu.delivers_iff (h := 4) (.inr rfl) hpart

/-- A byte in a block, in two pieces with a call between them. -/
theorem block_round_trip_two :
    Delivers ⟨3, 3, [0, 1, 65], 0⟩ [0, 1, 65] 2 [65] [0, 1, 65] := by
  have hnew : (arriving 2).Reachable (.new, []) := .init ⟨.init rfl, rfl, rfl⟩
  have hfirst : (arriving 2).Reachable (⟨1, 1, [0], 0⟩, [0]) :=
    .step (e := some [0]) hnew ⟨by decide, by decide, rfl⟩
  have htried : (arriving 2).Reachable (⟨1, 1, [0], 0⟩, [0]) :=
    .step (e := none) hfirst ⟨⟨0, none, ⟨1, 1, [0], 0⟩⟩, rfl, rfl, rfl⟩
  have hsecond : (arriving 2).Reachable (⟨3, 3, [0, 1, 65], 0⟩, [0, 1, 65]) :=
    .step (e := some [1, 65]) htried ⟨by decide, by decide, rfl⟩
  exact (block_round_trip (by decide) hsecond (.inl (by decide))).mpr (.inl rfl)

/-- Two bytes of a header of four are there, and four are looked at; and of a block of
65536 bytes the header alone is there, and an empty payload is handed on. -/
theorem header_not_arrived :
    (∃ b, (arriving 4).Reachable (b, [0, 0]) ∧ writeblock 4 [65] = .ok [0, 0, 0, 1, 65] ∧
      ¬ Delivers b [0, 0] 4 [65] [0, 0, 0, 1, 65]) ∧
    ∃ b, (arriving 4).Reachable (b, [0, 1, 0, 0]) ∧
      writeblock 4 (List.replicate 65536 0) = .ok ([0, 1, 0, 0] ++ List.replicate 65536 0) ∧
      ¬ Delivers b [0, 1, 0, 0] 4 (List.replicate 65536 0)
        ([0, 1, 0, 0] ++ List.replicate 65536 0) := by
  have hnew : (arriving 4).Reachable (.new, []) := .init ⟨.init rfl, rfl, rfl⟩
  refine ⟨⟨⟨2, 2, [0, 0], 0⟩, .step (e := some [0, 0]) hnew ⟨by decide, by decide, rfl⟩,
      by decide, ?_⟩,
    ⟨4, 4, [0, 1, 0, 0], 0⟩, .step (e := some [0, 1, 0, 0]) hnew ⟨by decide, by decide, rfl⟩,
      ?_, ?_⟩
  · rintro ⟨a, ha, -⟩
    cases ha
  · rw [writeblock, List.length_replicate]
    rfl
  · rintro ⟨a, ha, -, hdone⟩
    have hempty : readblock ⟨4, 4, [0, 1, 0, 0], 0⟩ 4 =
        some (.ok ⟨4, some [], ⟨4, 4, [0, 1, 0, 0], 4⟩⟩) := by decide
    obtain rfl := Except.ok.inj (Option.some.inj (hempty.symm.trans ha))
    split_ifs at hdone
    · have hlen := congrArg List.length (Option.some.inj hdone.1)
      rw [List.length_replicate] at hlen
      cases hlen
    · exact hdone.1.elim

end DnServer.Connection
