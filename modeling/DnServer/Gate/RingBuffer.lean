import DnServer.Lib.Memory
import DnServer.Lib.Tiling

/-!
# The ring buffer

`ringbuffer.c`: blocks in one piece of memory, each with a header of four
integers before its data. A block that is too small for a header has a length
only. Pointers are offsets from the start of the ring. `none` is a failed
assertion; the loops have fuel, and running out of it is a loop that does not
end.
-/

namespace DnServer.Gate

open DnServer.Lib

def ALIGN (s : ℤ) : ℤ := (s + 3) / 4 * 4

/-- `sizeof(struct ringbuffer_block)`. -/
def sizeofBlock : ℤ := 16

/-- `align_length` for a block of `size` bytes: the sum is one of `size_t`, and what is left of it
is an `int`. -/
def alignLength (size : ℤ) : ℤ := (ALIGN (sizeofBlock + size)).bmod 4294967296

structure Ring where
  mem : Memory
  size : ℕ
  head : ℕ

namespace Ring

/-! ## Blocks -/

def length (rb : Ring) (blk : ℕ) : ℤ := rb.mem.getInt blk
def offset (rb : Ring) (blk : ℕ) : ℤ := rb.mem.getInt (blk + 4)
def id (rb : Ring) (blk : ℕ) : ℤ := rb.mem.getInt (blk + 8)
def next (rb : Ring) (blk : ℕ) : ℤ := rb.mem.getInt (blk + 12)

def setLength (rb : Ring) (blk : ℕ) (v : ℤ) : Ring := { rb with mem := rb.mem.putInt blk v }
def setOffset (rb : Ring) (blk : ℕ) (v : ℤ) : Ring := { rb with mem := rb.mem.putInt (blk + 4) v }
def setId (rb : Ring) (blk : ℕ) (v : ℤ) : Ring := { rb with mem := rb.mem.putInt (blk + 8) v }
def setNext (rb : Ring) (blk : ℕ) (v : ℤ) : Ring := { rb with mem := rb.mem.putInt (blk + 12) v }

-- Not by `rfl` alone: the kernel would compare the memories before the fields.
@[simp]
theorem setLength_head (rb : Ring) (blk : ℕ) (v : ℤ) : (rb.setLength blk v).head = rb.head := by
  cases rb
  rfl

@[simp]
theorem setLength_size (rb : Ring) (blk : ℕ) (v : ℤ) : (rb.setLength blk v).size = rb.size := by
  cases rb
  rfl

@[simp]
theorem setId_head (rb : Ring) (blk : ℕ) (v : ℤ) : (rb.setId blk v).head = rb.head := by
  cases rb
  rfl

@[simp]
theorem setId_size (rb : Ring) (blk : ℕ) (v : ℤ) : (rb.setId blk v).size = rb.size := by
  cases rb
  rfl

/-- `blk->length >= sizeof(struct ringbuffer_block)`; the comparison is one of unsigned numbers. -/
def Whole (rb : Ring) (blk : ℕ) : Prop := rb.length blk < 0 ∨ sizeofBlock ≤ rb.length blk

instance (rb : Ring) (blk : ℕ) : Decidable (rb.Whole blk) := inferInstanceAs (Decidable (_ ∨ _))

/-- The block has a header and belongs to someone. -/
def Used (rb : Ring) (blk : ℕ) : Prop := rb.Whole blk ∧ 0 ≤ rb.id blk

instance (rb : Ring) (blk : ℕ) : Decidable (rb.Used blk) := inferInstanceAs (Decidable (_ ∧ _))

/-- The block `blk->next` points at. -/
def follow (rb : Ring) (blk : ℕ) : Option ℕ :=
  if 0 ≤ rb.next blk then some (rb.next blk).toNat else none

/-- `block_next`; `some none` is the end of the ring. -/
def block_next (rb : Ring) (blk : ℕ) : Option (Option ℕ) :=
  let e := blk + ALIGN (rb.length blk)
  if e = rb.size then some none
  else if 0 ≤ e ∧ e < rb.size then some (some e.toNat)
  else none

/-- The blocks from `blk` on, by their headers. -/
def walk (rb : Ring) : ℕ → ℕ → Option (List ℕ)
  | 0, _ => none
  | fuel + 1, blk =>
    (rb.block_next blk).bind fun
      | none => some [blk]
      | some next => (rb.walk fuel next).map (blk :: ·)

/-- The blocks of the ring. -/
def blocks (rb : Ring) : Option (List ℕ) := rb.walk rb.size 0

/-! ## Allocation -/

/-- `ringbuffer_new`. What `malloc` leaves in the memory is in no block. -/
def ringbuffer_new (size : ℕ) : Ring :=
  ((⟨fun _ => 0, size, 0⟩ : Ring).setLength 0 size).setId 0 (-1)

/-- `ringbuffer_link`'s loop: the last block of a chain. -/
def last (rb : Ring) : ℕ → ℕ → Option ℕ
  | 0, _ => none
  | fuel + 1, blk =>
    match rb.follow blk with
    | none => some blk
    | some next => rb.last fuel next

def ringbuffer_link (rb : Ring) (head next : ℕ) : Option Ring :=
  (rb.last rb.size head).map fun head => (rb.setId next (rb.id head)).setNext head next

/-- `_alloc`. -/
def alloc (rb : Ring) (total_size size : ℤ) : Option (Ring × ℕ) :=
  let blk := rb.head
  let align_length := alignLength size
  let rb := (((rb.setLength blk (sizeofBlock + size)).setOffset blk 0).setNext blk (-1)).setId blk (-1)
  (rb.block_next blk).map fun
    | none => ({ rb with head := 0 }, blk)
    | some next =>
      let rb := { rb with head := next }
      if align_length < total_size then
        let rb := rb.setLength next (total_size - align_length)
        (if rb.Whole next then rb.setId next (-1) else rb, blk)
      else (rb, blk)

/-- How the search for free space ends. -/
inductive Search
  /-- At a block of someone. -/
  | refused
  | found (free_size : ℤ)
  /-- At the end of the ring. -/
  | ended

/-- `ringbuffer_alloc`'s inner loop. -/
def search (rb : Ring) (align_length : ℤ) : ℕ → ℕ → ℤ → Option Search
  | 0, _, _ => none
  | fuel + 1, blk, free_size =>
    if rb.Used blk then some .refused
    else
      let free_size := free_size + ALIGN (rb.length blk)
      if align_length ≤ free_size then some (.found free_size)
      else
        (rb.block_next blk).bind fun
          | none => some .ended
          | some next => rb.search align_length fuel next free_size

def ringbuffer_alloc (rb : Ring) (size : ℤ) : Option (Ring × Option ℕ) :=
  let align_length := alignLength size
  (rb.search align_length rb.size rb.head 0).bind fun
    | .refused => some (rb, none)
    | .found free_size => (rb.alloc free_size size).map fun r => (r.1, some r.2)
    | .ended =>
      let rb := { rb with head := 0 }
      (rb.search align_length rb.size rb.head 0).bind fun
        | .refused => some (rb, none)
        | .found free_size => (rb.alloc free_size size).map fun r => (r.1, some r.2)
        | .ended => some (rb, none)

/-! ## Collection -/

/-- The first block of someone from `blk` on; `some none` when there is none. -/
def firstUsed (rb : Ring) : ℕ → ℕ → Option (Option ℕ)
  | 0, _ => none
  | fuel + 1, blk =>
    if rb.Used blk then some (some blk)
    else
      (rb.block_next blk).bind fun
        | none => some none
        | some next => rb.firstUsed fuel next

/-- `_last_id`. -/
def last_id (rb : Ring) : Option (Ring × ℤ) :=
  (rb.firstUsed rb.size rb.head).bind fun
    | some blk => some (rb, rb.id blk)
    | none =>
      let rb := { rb with head := 0 }
      (rb.firstUsed rb.size rb.head).map fun
        | some blk => (rb, rb.id blk)
        | none => (rb, -1)

/-- `ringbuffer_collect`'s loop. -/
def collectFrom (rb : Ring) (id : ℤ) : ℕ → ℕ → Option Ring
  | 0, _ => none
  | fuel + 1, blk =>
    let rb := if rb.Whole blk ∧ rb.id blk = id then rb.setId blk (-1) else rb
    (rb.block_next blk).bind fun
      | none => some rb
      | some next => rb.collectFrom id fuel next

def ringbuffer_collect (rb : Ring) : Option (Ring × ℤ) :=
  rb.last_id.bind fun r => (r.1.collectFrom r.2 r.1.size 0).map fun rb => (rb, r.2)

def ringbuffer_shrink (rb : Ring) (blk : ℕ) (size : ℤ) : Option Ring :=
  if size = 0 then some { rb with head := blk }
  else
    let align_length := alignLength size
    let old_length := ALIGN (rb.length blk)
    if align_length ≤ old_length then
      let rb := rb.setLength blk (size + sizeofBlock)
      if align_length = old_length then some rb
      else
        (rb.block_next blk).bind fun
          | none => none
          | some blk =>
            let rb := rb.setLength blk (old_length - align_length)
            let rb := if rb.Whole blk then rb.setId blk (-1) else rb
            some { rb with head := blk }
    else none

/-! ## Chains -/

/-- `ringbuffer_free`'s loop; `_block_id` asserts that the block belongs to someone. -/
def freeFrom (rb : Ring) (id : ℤ) : ℕ → ℕ → Option Ring
  | 0, _ => none
  | fuel + 1, blk =>
    if rb.Used blk ∧ rb.id blk = id then
      let rb := rb.setId blk (-1)
      match rb.follow blk with
      | none => some rb
      | some next => rb.freeFrom id fuel next
    else none

def ringbuffer_free (rb : Ring) : Option ℕ → Option Ring
  | none => some rb
  | some blk => rb.freeFrom (rb.id blk) rb.size blk

/-- `ringbuffer_data`'s inner loop. -/
def tally (rb : Ring) (size : ℤ) : ℕ → ℕ → ℤ → Option ℤ
  | 0, _, _ => none
  | fuel + 1, blk, ret =>
    match rb.follow blk with
    | none => some ret
    | some next =>
      let ret := ret + (rb.length next - sizeofBlock)
      if size ≤ ret then some size else rb.tally size fuel next ret

/-- `ringbuffer_data`'s outer loop. -/
def dataFrom (rb : Ring) (size : ℤ) : ℕ → ℕ → ℤ → ℤ → Option (ℤ × Option ℤ)
  | 0, _, _, _ => none
  | fuel + 1, blk, length, skip =>
    if skip < length then
      if size ≤ length - skip then
        some (size, some (blk + sizeofBlock + rb.offset blk + skip))
      else (rb.tally size (fuel + 1) blk (length - skip)).map fun ret => (ret, none)
    else
      match rb.follow blk with
      | none => if length = skip then some (0, none) else none
      | some next =>
        if rb.offset next = 0 then
          rb.dataFrom size fuel next (rb.length next - sizeofBlock) (skip - length)
        else none

/-- `ringbuffer_data`: how much is there, and where when it is in one piece. -/
def ringbuffer_data (rb : Ring) (blk : ℕ) (size skip : ℤ) : Option (ℤ × Option ℤ) :=
  rb.dataFrom size rb.size blk (rb.length blk - sizeofBlock - rb.offset blk) skip

def memcpy (rb : Ring) (dst src n : ℤ) : Ring :=
  { rb with mem := rb.mem.putBytes dst.toNat (rb.mem.bytes src.toNat n.toNat) }

/-- `ringbuffer_copy`'s inner loop. -/
def copyPieces (rb : Ring) : ℕ → ℤ → ℤ → ℤ → ℤ → ℕ → Option (Ring × ℕ)
  | 0, _, _, _, _, _ => none
  | fuel + 1, ptr, src, length, size, blk =>
    if length < size then
      let rb := rb.memcpy ptr src length
      match rb.follow blk with
      | none => none
      | some next =>
        if rb.offset next = 0 then
          rb.copyPieces fuel (ptr + length) (next + sizeofBlock) (rb.length next - sizeofBlock)
            (size - length) next
        else none
    else some (rb.memcpy ptr src size, blk)

/-- `ringbuffer_copy`'s outer loop. -/
def copyFrom (rb : Ring) (dst : ℕ) (size : ℤ) : ℕ → ℕ → ℤ → ℤ → Option Ring
  | 0, _, _, _ => none
  | fuel + 1, blk, length, skip =>
    if skip < length then
      (rb.copyPieces (fuel + 1) (dst + sizeofBlock) (blk + sizeofBlock + rb.offset blk + skip)
        (length - skip) size blk).map fun r => r.1.setId dst (r.1.id r.2)
    else
      match rb.follow blk with
      | none => none
      | some next =>
        if rb.offset next = 0 then
          rb.copyFrom dst size fuel next (rb.length next - sizeofBlock) (skip - length)
        else none

/-- `ringbuffer_copy`. -/
def ringbuffer_copy (rb : Ring) (blk : ℕ) (skip : ℤ) (dst : ℕ) : Option Ring :=
  rb.copyFrom dst (rb.length dst - sizeofBlock) rb.size blk
    (rb.length blk - sizeofBlock - rb.offset blk) skip

/-- `ringbuffer_yield`'s loop. -/
def yieldFrom (rb : Ring) : ℕ → ℕ → ℤ → ℤ → Option (Ring × Option ℕ)
  | 0, _, _, _ => none
  | fuel + 1, blk, length, skip =>
    if skip < length then some (rb.setOffset blk (rb.offset blk + skip), some blk)
    else
      let rb := rb.setId blk (-1)
      match rb.follow blk with
      | none => some (rb, none)
      | some next =>
        if rb.offset next = 0 then
          rb.yieldFrom fuel next (rb.length next - sizeofBlock) (skip - length)
        else none

def ringbuffer_yield (rb : Ring) (blk : ℕ) (skip : ℤ) : Option (Ring × Option ℕ) :=
  rb.yieldFrom rb.size blk (rb.length blk - sizeofBlock - rb.offset blk) skip

end Ring

end DnServer.Gate
