import DnServer.Lib.Transition
import DnServer.Redis.Buffer

/-!
# The socket buffer and its `int`s

`lua-socket.c` counts the bytes of a buffer in `int`s, and a count that is given to it as
a number or a `size_t` is cut to one. While all counts fit, the buffer is the byte queue
of `Redis.Buffer`; a call with one that does not fit goes wrong.

* `byte_queue`: `Small.exec` has the counts as they are while they fit, and `Small.fits`
  that a call with others goes wrong; `read_truncated` is such a call.
-/

namespace DnServer.Connection

open DnServer.Lib
open DnServer.Redis (window memcpy realloc window_zero window_drop window_take length_window
  length_realloc length_memcpy)

/-! ## Numbers and memory -/

/-- What is left of a number in an `int`. -/
def toInt (x : ℤ) : ℤ := x.bmod 4294967296

/-- A number as `size_t`. -/
def toSize (x : ℤ) : ℤ := x % 18446744073709551616

theorem toInt_eq {n : ℕ} (h : n < 2147483648) : toInt n = n :=
  Int.bmod_eq_of_le (by omega) (by omega)

theorem toSize_eq {n : ℕ} (h : n < 18446744073709551616) : toSize n = n :=
  Int.emod_eq_of_lt (by omega) (by omega)

/-- `n` bytes of a block from `i` on; `none` when they are not all in it. -/
def load (block : Bytes) (i n : ℤ) : Option Bytes :=
  if 0 ≤ i ∧ 0 ≤ n ∧ i + n ≤ block.length then some (window block i.toNat n.toNat) else none

/-- The block with `src` over it from `i` on. -/
def store (block : Bytes) (i : ℤ) (src : Bytes) : Option Bytes :=
  if 0 ≤ i ∧ i + src.length ≤ block.length then some (memcpy block i.toNat src) else none

theorem load_eq {block : Bytes} {i n : ℕ} (h : i + n ≤ block.length) :
    load block i n = some (window block i n) :=
  if_pos ⟨by omega, by omega, by omega⟩

theorem store_eq {block src : Bytes} {i : ℕ} (h : i + src.length ≤ block.length) :
    store block i src = some (memcpy block i src) :=
  if_pos ⟨by omega, by omega⟩

theorem length_store {block src block' : Bytes} {i : ℤ} (h : store block i src = some block') :
    block'.length = block.length := by
  unfold store at h
  split_ifs at h with hi
  obtain rfl := Option.some.inj h
  exact length_memcpy (by omega)

/-- Two pieces that fill a new block. -/
theorem memcpy_fill (a b : Bytes) :
    memcpy (memcpy (realloc [] (b.length + a.length)) 0 a) a.length b = a ++ b := by
  simp [memcpy, realloc]

/-! ## The code -/

/-- `struct buffer`; before the first push `buffer` points at nothing. -/
structure SocketBuffer where
  cap : ℤ
  size : ℤ
  buffer : Bytes
  read : ℤ
  deriving DecidableEq, Repr

namespace SocketBuffer

/-- `_new`. -/
def new : SocketBuffer := ⟨0, 0, [], 0⟩

/-- `_push`; `none` is an access outside the block, here and below. -/
def push (b : SocketBuffer) (buf : Bytes) : Option SocketBuffer :=
  let old_size := toInt (b.size - b.read)
  let total := toSize (buf.length + old_size)
  if toSize b.cap < total then
    if b.read = 0 then
      (store (realloc b.buffer total.toNat) old_size buf).map fun block =>
        { cap := toInt total, size := toInt (b.size + buf.length), buffer := block, read := b.read }
    else
      (load b.buffer b.read old_size).bind fun old =>
        (store (realloc [] total.toNat) 0 old).bind fun block =>
          (store block old_size buf).map fun block =>
            { cap := b.cap, size := toInt (old_size + buf.length), buffer := block, read := 0 }
  else if toSize b.cap < toSize (b.size + buf.length) then
    (load b.buffer b.read old_size).bind fun old =>
      (store b.buffer 0 old).bind fun block =>
        (store block old_size buf).map fun block =>
          { cap := b.cap, size := toInt (old_size + buf.length), buffer := block, read := 0 }
  else
    (store b.buffer b.size buf).map fun block =>
      { cap := b.cap, size := toInt (b.size + buf.length), buffer := block, read := b.read }

/-- `_read`, with what it returns. -/
def readBytes (b : SocketBuffer) (n : ℤ) : Option (SocketBuffer × Option Bytes) :=
  let need := toInt n
  let size := toInt (b.size - b.read)
  if need ≤ size then
    (load b.buffer b.read need).map fun s => ({ b with read := toInt (b.read + need) }, some s)
  else some (b, none)

/-- The loop of `_readline`. -/
def scan (block sep : Bytes) : ℕ → ℤ → Option (Option ℤ)
  | 0, _ => some none
  | rounds + 1, i =>
    (load block i sep.length).bind fun s =>
      if s = sep then some (some i) else scan block sep rounds (i + 1)

/-- `_readline`, with what it returns. -/
def readline (b : SocketBuffer) (sep : Bytes) : Option (SocketBuffer × Option Bytes) :=
  (scan b.buffer sep (b.size - toInt sep.length + 1 - b.read).toNat b.read).bind fun
    | none => some (b, none)
    | some i => (load b.buffer b.read (i - b.read)).map fun s =>
      ({ b with read := toInt (i + sep.length) }, some s)

/-- The bytes that are pushed and not read. -/
def unread (b : SocketBuffer) : Bytes := window b.buffer b.read.toNat (b.size - b.read).toNat

end SocketBuffer

/-! ## Operations and what they answer -/

/-- A call on a buffer. The numbers given to `read` are those a byte queue can be asked for. -/
inductive BufferOp
  | push (buf : Bytes)
  | read (n : ℕ)
  | readline (sep : Bytes)
  deriving DecidableEq, Repr

/-- What a call leaves and what it returns. -/
def BufferOp.exec (b : SocketBuffer) : BufferOp → Option (SocketBuffer × Option Bytes)
  | .push buf => (b.push buf).map fun b' => (b', none)
  | .read n => b.readBytes n
  | .readline sep => b.readline sep

/-- What a call on a byte queue returns, and the bytes in the queue after it. -/
def Answers (unread : Bytes) : BufferOp → Option Bytes → Bytes → Prop
  | .push buf, ret, after => ret = none ∧ after = unread ++ buf
  | .read n, some d, after => d.length = n ∧ unread = d ++ after
  | .read n, none, after => unread.length < n ∧ after = unread
  | .readline sep, some d, after =>
    unread = d ++ sep ++ after ∧ ∀ a, a ++ sep <+: unread → d.length ≤ a.length
  | .readline sep, none, after => after = unread ∧ ∀ a, ¬ a ++ sep <+: unread

/-- The call answers as on a byte queue. -/
def AsQueue (b : SocketBuffer) (op : BufferOp) : Prop :=
  ∃ b' ret, op.exec b = some (b', ret) ∧ Answers b.unread op ret b'.unread

/-- An `int` holds the number, or what it holds of it is still more than is unread. -/
def FitsInt (unread : Bytes) (n : ℕ) : Prop := n < 2147483648 ∨ (unread.length : ℤ) < toInt n

/-- All counts of the call fit. -/
def Fits (unread : Bytes) : BufferOp → Prop
  | .push buf => unread.length + buf.length < 2147483648
  | .read n => FitsInt unread n
  | .readline sep => FitsInt unread sep.length

instance (unread : Bytes) (n : ℕ) : Decidable (FitsInt unread n) :=
  inferInstanceAs (Decidable (_ ∨ _))

instance (unread : Bytes) : (op : BufferOp) → Decidable (Fits unread op)
  | .push buf => inferInstanceAs (Decidable (unread.length + buf.length < 2147483648))
  | .read n => inferInstanceAs (Decidable (FitsInt unread n))
  | .readline sep => inferInstanceAs (Decidable (FitsInt unread sep.length))

/-- The buffer taking calls, each with what it returned. -/
def system : TSys SocketBuffer (BufferOp × Option Bytes) where
  init b := b = .new
  step b e b' := e.1.exec b = some (b', e.2)

/-- The system as long as all counts fit. -/
def fitting : TSys SocketBuffer (BufferOp × Option Bytes) :=
  system.restrict fun b e => Fits b.unread e.1

/-- What has passed through a buffer: the bytes pushed, and those returned with the
separators of `readline` behind their lines. -/
structure Traffic where
  pushed : Bytes
  returned : Bytes
  deriving DecidableEq, Repr

/-- The traffic with one more call. -/
def Traffic.note (t : Traffic) : BufferOp → Option Bytes → Traffic
  | .push buf, _ => { t with pushed := t.pushed ++ buf }
  | .read _, some d => { t with returned := t.returned ++ d }
  | .readline sep, some d => { t with returned := t.returned ++ d ++ sep }
  | _, none => t

/-! ## The buffer is that of the Redis client -/

/-- The abstract buffer with its counts as `int`s. -/
def ofBuffer (u : Redis.Buffer) : SocketBuffer := ⟨u.cap, u.size, u.buffer, u.read⟩

/-- The block, and with it every count, is shorter than an `int` can say. -/
def Small (u : Redis.Buffer) : Prop := u.buffer.length < 2147483648

variable {u : Redis.Buffer} {buf sep : Bytes}

theorem unread_ofBuffer (u : Redis.Buffer) : (ofBuffer u).unread = u.unread := by
  unfold SocketBuffer.unread ofBuffer Redis.Buffer.unread
  dsimp only
  rw [Int.toNat_natCast, Int.toNat_sub]

theorem Small.old_size (h : Small u) :
    toInt ((u.size : ℤ) - u.read) = ((u.size - u.read : ℕ) : ℤ) := by
  have hlt : u.buffer.length < 2147483648 := h
  have := u.size_le
  rw [← Nat.cast_sub u.read_le, toInt_eq (by omega)]

/-- While the counts fit, pushing is that of the abstract buffer. -/
theorem Small.push (h : Small u) (hfits : u.unread.length + buf.length < 2147483648) :
    (ofBuffer u).push buf = some (ofBuffer (u.push buf)) ∧ Small (u.push buf) := by
  rw [Redis.Buffer.length_unread] at hfits
  have h1 := u.read_le
  have h2 := u.size_le
  have h3 := u.cap_le
  have hlt : u.buffer.length < 2147483648 := h
  have hold := h.old_size
  have hlen : (window u.buffer u.read (u.size - u.read)).length = u.size - u.read :=
    length_window (by omega)
  have hcap : toSize u.cap = u.cap := toSize_eq (by omega)
  have htotal : toSize (buf.length + ((u.size - u.read : ℕ) : ℤ)) =
      ((buf.length + (u.size - u.read) : ℕ) : ℤ) := by
    rw [← Nat.cast_add, toSize_eq (by omega)]
  have hend : toSize (u.size + (buf.length : ℤ)) = ((u.size + buf.length : ℕ) : ℤ) := by
    rw [← Nat.cast_add, toSize_eq (by omega)]
  have hload : load u.buffer u.read ((u.size - u.read : ℕ) : ℤ) =
      some (window u.buffer u.read (u.size - u.read)) := load_eq (by omega)
  unfold SocketBuffer.push Redis.Buffer.push Small ofBuffer
  dsimp only
  rw [hold, htotal, hcap, hend]
  simp only [Nat.cast_lt, Nat.cast_eq_zero, Int.toNat_natCast]
  split_ifs with hgrow hread hend
  · -- the block grows where it stands
    have hstore : store (realloc u.buffer (buf.length + (u.size - u.read)))
        ((u.size - u.read : ℕ) : ℤ) buf =
        some (memcpy (realloc u.buffer (buf.length + (u.size - u.read))) (u.size - u.read) buf) :=
      store_eq (by rw [length_realloc]; omega)
    have hfront : (u.read : ℤ) = 0 := by rw [hread]; rfl
    have hsmall := length_store hstore
    rw [length_realloc] at hsmall
    rw [hstore, toInt_eq (by omega), ← Nat.cast_add, toInt_eq (by omega), hfront]
    exact ⟨rfl, hsmall.trans_lt (by omega)⟩
  · -- the unread bytes and the new ones fill a new block
    have hstore : store (realloc [] (buf.length + (u.size - u.read))) 0
        (window u.buffer u.read (u.size - u.read)) =
        some (memcpy (realloc [] (buf.length + (u.size - u.read))) 0
          (window u.buffer u.read (u.size - u.read))) :=
      store_eq (i := 0) (by rw [length_realloc]; omega)
    have hfill := memcpy_fill (window u.buffer u.read (u.size - u.read)) buf
    rw [hlen] at hfill
    have hblock := length_store hstore
    rw [length_realloc] at hblock
    rw [hload, Option.bind_some, hstore, Option.bind_some, store_eq (by omega), hfill,
      ← Nat.cast_add, toInt_eq (by omega)]
    exact ⟨rfl, by rw [List.length_append]; omega⟩
  · -- the unread bytes move to the front
    have hmove : store u.buffer 0 (window u.buffer u.read (u.size - u.read)) =
        some (memcpy u.buffer 0 (window u.buffer u.read (u.size - u.read))) :=
      store_eq (i := 0) (by omega)
    have hblock := length_store hmove
    have hstore : store (memcpy u.buffer 0 (window u.buffer u.read (u.size - u.read)))
        ((u.size - u.read : ℕ) : ℤ) buf = some (memcpy
          (memcpy u.buffer 0 (window u.buffer u.read (u.size - u.read))) (u.size - u.read) buf) :=
      store_eq (by omega)
    have hsmall := length_store hstore
    rw [hload, Option.bind_some, hmove, Option.bind_some, hstore, ← Nat.cast_add,
      toInt_eq (by omega)]
    exact ⟨rfl, hsmall.trans_lt (by omega)⟩
  · -- there is room behind
    have hstore : store u.buffer u.size buf = some (memcpy u.buffer u.size buf) :=
      store_eq (by omega)
    have hsmall := length_store hstore
    rw [hstore, ← Nat.cast_add, toInt_eq (by omega)]
    exact ⟨rfl, hsmall.trans_lt (by omega)⟩

theorem Small.length_unread (h : Small u) : u.unread.length < 2147483648 := by
  have hlt : u.buffer.length < 2147483648 := h
  have := u.size_le
  rw [Redis.Buffer.length_unread]
  omega

theorem FitsInt.le_iff {unread : Bytes} {n : ℕ} (hlt : unread.length < 2147483648)
    (h : FitsInt unread n) : toInt n ≤ unread.length ↔ n ≤ unread.length := by
  rcases Nat.lt_or_ge n 2147483648 with hn | hn
  · rw [toInt_eq hn, Nat.cast_le]
  · have : (unread.length : ℤ) < toInt n := h.resolve_left (by omega)
    omega

/-- Reading what is there, or nothing. -/
theorem Small.read (h : Small u) {n : ℕ} (hfit : FitsInt u.unread n) :
    ∃ v ret, (ofBuffer u).readBytes n = some (ofBuffer v, ret) ∧ Small v ∧
      Answers u.unread (.read n) ret v.unread := by
  have h1 := u.read_le
  have h2 := u.size_le
  have hlt : u.buffer.length < 2147483648 := h
  have hle := hfit.le_iff h.length_unread
  have hlen := u.length_unread
  unfold SocketBuffer.readBytes ofBuffer
  dsimp only
  rw [h.old_size, ← hlen]
  split_ifs with hneed
  · have hn := hle.mp hneed
    have hall : u.unread = window u.buffer u.read (u.size - u.read) := rfl
    refine ⟨{ u with read := u.read + n, read_le := by omega }, some (u.unread.take n), ?_, h,
      List.length_take_of_le hn, ?_⟩
    · rw [toInt_eq (by omega), load_eq (by omega), ← Nat.cast_add, toInt_eq (by omega), hall,
        window_take (by omega)]
      rfl
    · have hdrop : u.unread.drop n = window u.buffer (u.read + n) (u.size - (u.read + n)) := by
        rw [hall, window_drop, Nat.sub_sub]
      exact ((List.take_append_drop n _).symm.trans (congrArg _ hdrop))
  · exact ⟨u, none, rfl, h, by omega, rfl⟩

/-- The comparisons of `_readline` are those of the abstract buffer. -/
theorem scan_eq {block : Bytes} {size : ℕ} (hsize : size ≤ block.length) {n i : ℕ}
    (hn : size - i < n) :
    SocketBuffer.scan block sep (size + 1 - sep.length - i) i =
      some ((Redis.Buffer.findSep block sep size n i).map fun j : ℕ => (j : ℤ)) := by
  induction n generalizing i with
  | zero => omega
  | succ n ih =>
    simp only [Redis.Buffer.findSep]
    split_ifs with hle heq
    · rw [show size + 1 - sep.length - i = size - sep.length - i + 1 by omega, SocketBuffer.scan,
        load_eq (by omega), Option.bind_some, if_pos heq]
      rfl
    · -- the empty separator stands everywhere, so bytes were compared here
      have hpos : sep.length ≠ 0 := by
        intro h0
        rw [h0, window_zero] at heq
        exact heq (List.eq_nil_of_length_eq_zero h0).symm
      rw [show size + 1 - sep.length - i = size + 1 - sep.length - (i + 1) + 1 by omega,
        SocketBuffer.scan, load_eq (by omega), Option.bind_some, if_neg heq]
      exact ih (by omega)
    · rw [show size + 1 - sep.length - i = 0 by omega]
      rfl

/-- A separator behind `a` stands `a.length` bytes further. -/
theorem prefix_window_of_append {block a : Bytes} {i size : ℕ}
    (h : a ++ sep <+: window block i (size - i)) :
    sep <+: window block (i + a.length) (size - (i + a.length)) := by
  obtain ⟨rest, hrest⟩ := h
  rw [← Nat.sub_sub, ← window_drop, ← hrest, List.append_assoc, List.drop_left]
  exact List.prefix_append sep rest

theorem Small.readline (h : Small u) (hsep : sep.length < 2147483648) :
    ∃ v ret, (ofBuffer u).readline sep = some (ofBuffer v, ret) ∧ Small v ∧
      Answers u.unread (.readline sep) ret v.unread := by
  have h1 := u.read_le
  have h2 := u.size_le
  have hlt : u.buffer.length < 2147483648 := h
  have hrounds : ((u.size : ℤ) - toInt sep.length + 1 - u.read).toNat =
      u.size + 1 - sep.length - u.read := by
    rw [toInt_eq hsep]
    omega
  have hscan : SocketBuffer.scan u.buffer sep (u.size + 1 - sep.length - u.read) u.read =
      some ((Redis.Buffer.findSep u.buffer sep u.size (u.size + 1 - u.read) u.read).map
        fun j : ℕ => (j : ℤ)) :=
    scan_eq h2 (by omega)
  unfold SocketBuffer.readline ofBuffer
  dsimp only
  rw [hrounds, hscan, Option.bind_some]
  cases hfind : Redis.Buffer.findSep u.buffer sep u.size (u.size + 1 - u.read) u.read with
  | none =>
    refine ⟨u, none, rfl, h, rfl, fun a ha => ?_⟩
    have hsepa := prefix_window_of_append ha
    have hle : u.read + a.length ≤ u.size := by
      have := ha.length_le
      rw [Redis.Buffer.length_unread, List.length_append] at this
      omega
    exact Redis.Buffer.findSep_none h2 (by omega) hfind (by omega) hle hsepa
  | some j =>
    obtain ⟨hj, hjs⟩ := Redis.Buffer.findSep_bounds hfind
    obtain ⟨⟨rest, hrest⟩, hfirst⟩ := Redis.Buffer.findSep_first h2 h1 hfind
    have hd : (window u.buffer u.read (j - u.read)).length = j - u.read := length_window (by omega)
    refine ⟨{ u with read := j + sep.length, read_le := hjs },
      some (window u.buffer u.read (j - u.read)), ?_, h, ?_, fun a ha => ?_⟩
    · dsimp only [Option.map_some]
      rw [← Nat.cast_sub hj, load_eq (by omega), ← Nat.cast_add, toInt_eq (by omega)]
      rfl
    · have hafter : rest = window u.buffer (j + sep.length) (u.size - (j + sep.length)) := by
        rw [← Nat.sub_sub, ← window_drop, ← hrest, List.drop_left]
      have hdrop : u.unread.drop (j - u.read) = sep ++ rest := by
        rw [hrest, Redis.Buffer.unread, window_drop, Nat.add_sub_cancel' hj,
          show u.size - u.read - (j - u.read) = u.size - j by omega]
      have htake : u.unread.take (j - u.read) = window u.buffer u.read (j - u.read) :=
        window_take (by omega)
      calc u.unread = u.unread.take (j - u.read) ++ u.unread.drop (j - u.read) :=
            (List.take_append_drop _ _).symm
        _ = window u.buffer u.read (j - u.read) ++ (sep ++ rest) := by rw [htake, hdrop]
        _ = _ := by rw [hafter, List.append_assoc]; rfl
    · by_contra hshort
      exact hfirst _ (by omega) (by omega) (prefix_window_of_append ha)

/-- A separator so long that no place is tried. -/
theorem Small.readline_long (h : Small u) (hsep : 2147483648 ≤ sep.length)
    (hlong : (u.unread.length : ℤ) < toInt sep.length) :
    (ofBuffer u).readline sep = some (ofBuffer u, none) ∧
      Answers u.unread (.readline sep) none u.unread := by
  have h1 := u.read_le
  have hlen := u.length_unread
  have hlt := h.length_unread
  refine ⟨?_, rfl, fun a ha => ?_⟩
  · unfold SocketBuffer.readline ofBuffer
    dsimp only
    rw [show ((u.size : ℤ) - toInt sep.length + 1 - u.read).toNat = 0 by omega]
    rfl
  · have := ha.length_le
    rw [List.length_append] at this
    omega

/-- A call whose counts fit answers as on a byte queue and keeps the counts small or
leaves them to the next call. -/
theorem Small.exec (h : Small u) {op : BufferOp} (hfit : Fits u.unread op) :
    ∃ v ret, op.exec (ofBuffer u) = some (ofBuffer v, ret) ∧ Small v ∧
      Answers u.unread op ret v.unread := by
  cases op with
  | push buf =>
    obtain ⟨hpush, hsmall⟩ := h.push hfit
    refine ⟨u.push buf, none, ?_, hsmall, rfl, Redis.Buffer.unread_push u buf⟩
    rw [BufferOp.exec, hpush, Option.map_some]
  | read n => exact h.read hfit
  | readline sep =>
    rcases Nat.lt_or_ge sep.length 2147483648 with hsep | hsep
    · exact h.readline hsep
    · obtain ⟨hexec, hanswer⟩ := h.readline_long hsep (hfit.resolve_left (by omega))
      exact ⟨u, none, hexec, h, hanswer⟩

/-! ## Counts that do not fit -/

theorem toInt_lt (x : ℤ) : toInt x < 2147483648 := Int.bmod_lt (by decide)

/-- Whatever is pushed, `size` is an `int` and `read` does not go below zero. -/
theorem SocketBuffer.push_bounds {b b' : SocketBuffer} (h : b.push buf = some b')
    (hread : 0 ≤ b.read) : b'.size < 2147483648 ∧ 0 ≤ b'.read := by
  unfold SocketBuffer.push at h
  dsimp only at h
  split_ifs at h
  · obtain ⟨block, -, rfl⟩ := Option.map_eq_some_iff.mp h
    exact ⟨toInt_lt _, hread⟩
  · obtain ⟨old, -, h⟩ := Option.bind_eq_some_iff.mp h
    obtain ⟨mid, -, h⟩ := Option.bind_eq_some_iff.mp h
    obtain ⟨block, -, rfl⟩ := Option.map_eq_some_iff.mp h
    exact ⟨toInt_lt _, le_rfl⟩
  · obtain ⟨old, -, h⟩ := Option.bind_eq_some_iff.mp h
    obtain ⟨mid, -, h⟩ := Option.bind_eq_some_iff.mp h
    obtain ⟨block, -, rfl⟩ := Option.map_eq_some_iff.mp h
    exact ⟨toInt_lt _, le_rfl⟩
  · obtain ⟨block, -, rfl⟩ := Option.map_eq_some_iff.mp h
    exact ⟨toInt_lt _, hread⟩

/-- A call with a count that does not fit is not answered as on a byte queue. -/
theorem Small.fits (h : Small u) {op : BufferOp} (hqueue : AsQueue (ofBuffer u) op) :
    Fits u.unread op := by
  obtain ⟨b', ret, hexec, hanswer⟩ := hqueue
  rw [unread_ofBuffer] at hanswer
  have hlen := u.length_unread
  have hlt := h.length_unread
  cases op with
  | push buf =>
    obtain ⟨b₁, hpush, heq⟩ := Option.map_eq_some_iff.mp hexec
    obtain ⟨rfl, rfl⟩ := Prod.mk.inj heq
    obtain ⟨hsize, hread⟩ := SocketBuffer.push_bounds hpush (Int.natCast_nonneg u.read)
    have hafter := congrArg List.length hanswer.2
    rw [List.length_append] at hafter
    have hle : b₁.unread.length ≤ (b₁.size - b₁.read).toNat := List.length_take_le _ _
    show u.unread.length + buf.length < 2147483648
    omega
  | read n =>
    by_contra hfit
    obtain ⟨hn, hneed⟩ := not_or.mp hfit
    simp only [BufferOp.exec, SocketBuffer.readBytes, ofBuffer, h.old_size] at hexec
    rw [if_pos (by omega)] at hexec
    obtain ⟨d, -, heq⟩ := Option.map_eq_some_iff.mp hexec
    obtain ⟨-, rfl⟩ := Prod.mk.inj heq
    obtain ⟨hd, hall⟩ := hanswer
    have := congrArg List.length hall
    rw [List.length_append] at this
    omega
  | readline sep =>
    by_contra hfit
    obtain ⟨hsep, hneed⟩ := not_or.mp hfit
    have h1 := u.read_le
    have hblock : u.buffer.length < 2147483648 := h
    obtain ⟨rounds, hrounds⟩ : ∃ rounds,
        ((u.size : ℤ) - toInt sep.length + 1 - u.read).toNat = rounds + 1 :=
      ⟨((u.size : ℤ) - toInt sep.length - u.read).toNat, by omega⟩
    simp only [BufferOp.exec, SocketBuffer.readline, ofBuffer, hrounds, SocketBuffer.scan] at hexec
    rw [load, if_neg (by omega)] at hexec
    cases hexec

/-! ## Every run -/

/-- The counts are small, and what went in came out or is still there. -/
def Kept (p : SocketBuffer × Traffic) : Prop :=
  ∃ u, p.1 = ofBuffer u ∧ Small u ∧ p.2.returned ++ u.unread = p.2.pushed

theorem Kept.note {t : Traffic} {op : BufferOp} {ret : Option Bytes} {unread after : Bytes}
    (hkept : t.returned ++ unread = t.pushed) (h : Answers unread op ret after) :
    (t.note op ret).returned ++ after = (t.note op ret).pushed := by
  cases op with
  | push buf =>
    obtain ⟨rfl, rfl⟩ := h
    rw [Traffic.note, ← List.append_assoc, hkept]
  | read n =>
    cases ret with
    | none =>
      obtain ⟨-, rfl⟩ := h
      exact hkept
    | some d =>
      obtain ⟨-, rfl⟩ := h
      rw [Traffic.note, List.append_assoc, hkept]
  | readline sep =>
    cases ret with
    | none =>
      obtain ⟨rfl, -⟩ := h
      exact hkept
    | some d =>
      obtain ⟨rfl, -⟩ := h
      rw [Traffic.note, ← hkept]
      simp only [List.append_assoc]

/-- The fitting system with its traffic. -/
def traced : TSys (SocketBuffer × Traffic) (BufferOp × Option Bytes) :=
  fitting.observe (fun _ => ⟨[], []⟩) fun _ e _ t => t.note e.1 e.2

theorem Kept.inductive : traced.Inductive Kept where
  init := by
    rintro ⟨b, t⟩ ⟨hb, ht⟩
    exact ⟨.new, hb, show 0 < 2147483648 by decide, by rw [ht]; rfl⟩
  step := by
    rintro ⟨b, t⟩ ⟨op, ret⟩ ⟨b', t'⟩ _ ⟨u, hb, hsmall, hkept⟩ ⟨⟨hfit, hexec⟩, hnote⟩
    dsimp only at hb hkept hfit hexec hnote
    subst hb
    rw [unread_ofBuffer] at hfit
    obtain ⟨v, ret', hexec', hv, hanswer⟩ := hsmall.exec hfit
    obtain ⟨rfl, rfl⟩ := Prod.mk.inj (Option.some.inj (hexec'.symm.trans hexec))
    refine ⟨v, rfl, hv, ?_⟩
    rw [hnote]
    exact Kept.note hkept hanswer

/-- In every run whose counts all fit, what was returned and what is still unread are
together what was pushed, and the next call answers as on a byte queue if and only if its
counts fit too. -/
theorem byte_queue (b : SocketBuffer) (t : Traffic) (h : traced.Reachable (b, t)) :
    t.returned ++ b.unread = t.pushed ∧ ∀ op, AsQueue b op ↔ Fits b.unread op := by
  obtain ⟨u, hb, hsmall, hkept⟩ := Kept.inductive.invariant _ h
  dsimp only at hb hkept
  subst hb
  rw [unread_ofBuffer]
  refine ⟨hkept, fun op => ⟨hsmall.fits, fun hfit => ?_⟩⟩
  obtain ⟨v, ret, hexec, -, hanswer⟩ := hsmall.exec hfit
  refine ⟨ofBuffer v, ret, hexec, ?_⟩
  rw [unread_ofBuffer, unread_ofBuffer]
  exact hanswer

/-- A line and one byte are read, and three more are asked for while one is there. -/
theorem byte_queue_line :
    ([97, 13, 10, 98] ++ (⟨5, 5, [97, 13, 10, 98, 99], 4⟩ : SocketBuffer).unread =
      [97, 13, 10, 98, 99]) ∧
    AsQueue ⟨5, 5, [97, 13, 10, 98, 99], 4⟩ (.read 3) := by
  have hnew : traced.Reachable (.new, ⟨[], []⟩) := .init ⟨rfl, rfl⟩
  have hpush : traced.Reachable (⟨5, 5, [97, 13, 10, 98, 99], 0⟩, ⟨[97, 13, 10, 98, 99], []⟩) :=
    .step (e := (BufferOp.push [97, 13, 10, 98, 99], none)) hnew ⟨⟨by decide, rfl⟩, rfl⟩
  have hline : traced.Reachable
      (⟨5, 5, [97, 13, 10, 98, 99], 3⟩, ⟨[97, 13, 10, 98, 99], [97, 13, 10]⟩) :=
    .step (e := (BufferOp.readline [13, 10], some [97])) hpush ⟨⟨by decide, rfl⟩, rfl⟩
  have hread : traced.Reachable
      (⟨5, 5, [97, 13, 10, 98, 99], 4⟩, ⟨[97, 13, 10, 98, 99], [97, 13, 10, 98]⟩) :=
    .step (e := (BufferOp.read 1, some [98])) hline ⟨⟨by decide, rfl⟩, rfl⟩
  obtain ⟨hall, hcalls⟩ := byte_queue _ _ hread
  exact ⟨hall, (hcalls (.read 3)).mpr (by decide)⟩

/-- A number of which an `int` keeps nothing: the byte queue is asked for 2³² bytes and
returns none. -/
theorem read_truncated :
    system.Reachable .new ∧
      (BufferOp.read 4294967296).exec .new = some (.new, some []) ∧
      ¬ AsQueue .new (.read 4294967296) := by
  refine ⟨.init rfl, by decide, ?_⟩
  rintro ⟨b', ret, hexec, hanswer⟩
  obtain ⟨-, rfl⟩ := Prod.mk.inj
    (Option.some.inj (hexec.symm.trans (show _ = some (SocketBuffer.new, some []) by decide)))
  obtain ⟨hlen, -⟩ := hanswer
  exact absurd hlen (by decide)

end DnServer.Connection
