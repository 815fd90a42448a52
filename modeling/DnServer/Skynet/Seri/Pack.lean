import DnServer.Skynet.Seri.Value

/-!
# The packer of lua-seri

`_luaseri_pack` writes into a chain of blocks of 128 bytes, whose first four
bytes get the length at the end, and copies the chain into one buffer. The
length is an `int`: a push that takes it past the last one is undefined.
-/

namespace DnServer.Skynet

open DnServer.Lib

def TYPE_NIL : ℕ := 0
def TYPE_BOOLEAN : ℕ := 1
def TYPE_NUMBER : ℕ := 2
def TYPE_USERDATA : ℕ := 3
def TYPE_SHORT_STRING : ℕ := 4
def TYPE_LONG_STRING : ℕ := 5
def TYPE_TABLE : ℕ := 6
def TYPE_REMOTE : ℕ := 7

def MAX_COOKIE : ℕ := 32

/-- The byte that `COMBINE_TYPE` gives. -/
def COMBINE_TYPE (t : ℕ) (v : ℤ) : UInt8 := UInt8.ofNat (t ||| word v <<< 3)

def BLOCK_SIZE : ℕ := 128
/-- `struct write_block`: the blocks from the head on, and the index of the
current one. -/
structure write_block where
  blocks : List (List UInt8)
  current : ℕ
  ptr : ℕ
  len : ℤ

/-- A program that writes. -/
abbrev Write (α : Type) := StateT write_block (Outcome String) α

def blk_alloc : List UInt8 := List.replicate BLOCK_SIZE 0

namespace write_block

/-- From `_again` on: the next block becomes the current one. -/
def again (b : write_block) : write_block :=
  { b with
    blocks := b.blocks.take (b.current + 1) ++ [blk_alloc]
    current := b.current + 1
    ptr := 0 }

/-- `memcpy` into the current block, and the two additions after it. -/
def store (b : write_block) (buf : List UInt8) : Outcome String write_block :=
  if b.len + buf.length < 2147483648 then
    .ok { b with
      blocks := b.blocks.modify b.current fun blk =>
        blk.take b.ptr ++ buf ++ blk.drop (b.ptr + buf.length)
      ptr := b.ptr + buf.length
      len := b.len + buf.length }
  else .fault

/-- The loop of `wb_push`, in at most so many rounds. -/
def push : ℕ → write_block → List UInt8 → Outcome String write_block
  | 0, _, _ => .unfinished
  | n + 1, b, buf =>
    if b.ptr + buf.length ≤ BLOCK_SIZE then b.store buf
    else
      let copy := BLOCK_SIZE - b.ptr
      (b.store (buf.take copy)).bind fun b => push n b.again (buf.drop copy)

end write_block

def wb_push (buf : List UInt8) : Write Unit := fun b =>
  (write_block.push (buf.length + 1) (if b.ptr = BLOCK_SIZE then b.again else b) buf).bind
    fun b => .ok ((), b)

def wb_nil : Write Unit := wb_push [COMBINE_TYPE TYPE_NIL 0]

def wb_boolean (boolean : Bool) : Write Unit :=
  wb_push [COMBINE_TYPE TYPE_BOOLEAN (if boolean then 1 else 0)]

def wb_integer (v : ℤ) (type : ℕ) : Write Unit :=
  if v = 0 then wb_push [COMBINE_TYPE type 0]
  else if v < 0 then do
    wb_push [COMBINE_TYPE type 4]
    wb_push (littleEndian 4 (word v))
  else if v < 0x100 then do
    wb_push [COMBINE_TYPE type 1]
    wb_push (littleEndian 1 (word v))
  else if v < 0x10000 then do
    wb_push [COMBINE_TYPE type 2]
    wb_push (littleEndian 2 (word v))
  else do
    wb_push [COMBINE_TYPE type 4]
    wb_push (littleEndian 4 (word v))

def wb_number (v : Double) : Write Unit := do
  wb_push [COMBINE_TYPE TYPE_NUMBER 8]
  wb_push (littleEndian 8 v.toNat)

def wb_pointer (v : BitVec 64) : Write Unit := do
  wb_push [COMBINE_TYPE TYPE_USERDATA 0]
  wb_push (littleEndian 8 v.toNat)

/-- The first `len` bytes of a string, or what is undefined if there are not so
many. -/
def wb_bytes (str : List UInt8) (len : ℤ) : Write Unit :=
  if 0 ≤ len ∧ len ≤ str.length then wb_push (str.take len.toNat) else fun _ => .fault

def wb_string (str : List UInt8) (len : ℤ) : Write Unit :=
  if len < MAX_COOKIE then do
    wb_push [COMBINE_TYPE TYPE_SHORT_STRING len]
    if 0 < len then wb_bytes str len
  else do
    if len < 0x10000 then do
      wb_push [COMBINE_TYPE TYPE_LONG_STRING 2]
      wb_push (littleEndian 2 (word len))
    else do
      wb_push [COMBINE_TYPE TYPE_LONG_STRING 4]
      wb_push (littleEndian 4 (word len))
    wb_bytes str len

/-- The first byte of a table, and its size where the byte has no room for it. -/
def wb_table_size (array_size : ℕ) : Write Unit :=
  if MAX_COOKIE - 1 ≤ array_size then do
    wb_push [COMBINE_TYPE TYPE_TABLE (MAX_COOKIE - 1)]
    wb_integer array_size TYPE_NUMBER
  else wb_push [COMBINE_TYPE TYPE_TABLE array_size]

section Table

/-! The functions on tables, over what packs a value one level further in. -/

variable (_pack_one : Value → Write Unit)

def wb_table_array (array_size : ℕ) (es : Entries) : Write Unit := do
  wb_table_size array_size
  (List.range' 1 array_size).forM fun i => _pack_one (es.rawget (.index i))

/-- The keys that `wb_table_hash` passes over. -/
def inArray (array_size : ℕ) : Value → Bool
  | .number k => k.eq (.ofInt k.int32) && 0 < k.int32 && k.int32 ≤ array_size
  | _ => false

def wb_table_hash (array_size : ℕ) (es : Entries) : Write Unit := do
  es.forM fun e =>
    if inArray array_size e.1 then pure ()
    else do
      _pack_one e.1
      _pack_one e.2
  wb_nil

def wb_table (rawlen : ℕ) (es : Entries) : Write Unit := do
  wb_table_array _pack_one rawlen es
  wb_table_hash _pack_one rawlen es

end Table

/-- `_pack_one` where `MAX_DEPTH + 1 - depth` more levels may follow. -/
def _pack_one (lua : Lua) : ℕ → Value → Write Unit
  | 0, _ => fun _ => .error "serialize can't pack too depth table"
  | depth + 1, v =>
    match v with
    | .nil => wb_nil
    | .number n =>
      if (Double.ofInt n.int32).eq n then wb_integer n.int32 TYPE_NUMBER else wb_number n
    | .boolean b => wb_boolean b
    | .string str => wb_string str (signed (str.length % 4294967296))
    | .userdata p => wb_pointer p
    | .table rawlen es =>
      match lua.isnumber (Entries.rawget es Value.remoteKey) with
      | some handle => wb_integer handle.int32 TYPE_REMOTE
      | none => wb_table (_pack_one lua depth) rawlen es
    | .other typename => fun _ => .error s!"Unsupport type {typename} to serialize"

/-! ## One buffer -/

namespace write_block

/-- The chain has `out` written into it, the current block being the last one. -/
def Holds (b : write_block) (out : List UInt8) : Prop :=
  ∃ init last, b.blocks = init ++ [last] ∧ (∀ blk ∈ init, blk.length = BLOCK_SIZE) ∧
    last.length = BLOCK_SIZE ∧ b.current = init.length ∧ b.ptr ≤ BLOCK_SIZE ∧
    out = init.flatten ++ last.take b.ptr ∧ b.len = out.length ∧ out.length < 2147483648

variable {b b' : write_block} {out buf : List UInt8}

theorem Holds.again (h : b.Holds out) (hptr : b.ptr = BLOCK_SIZE) : b.again.Holds out := by
  obtain ⟨init, last, hblocks, hinit, hlast, hcur, -, hout, hlen, hint⟩ := h
  refine ⟨init ++ [last], blk_alloc, ?_, ?_, ?_, ?_, ?_, ?_, hlen, hint⟩
  · simp [write_block.again, hblocks, hcur, List.take_of_length_le]
  · intro blk hblk
    rcases List.mem_append.1 hblk with hold | hnew
    · exact hinit blk hold
    · rw [List.mem_singleton.1 hnew, hlast]
  · simp [blk_alloc]
  · simp [write_block.again, hcur]
  · simp [write_block.again]
  · rw [hout, hptr, List.take_of_length_le hlast.le]
    simp [write_block.again]

theorem Holds.store (h : b.Holds out) (hroom : b.ptr + buf.length ≤ BLOCK_SIZE)
    (hfit : out.length + buf.length < 2147483648) :
    ∃ b', b.store buf = .ok b' ∧ b'.Holds (out ++ buf) ∧ b'.ptr = b.ptr + buf.length := by
  obtain ⟨init, last, hblocks, hinit, hlast, hcur, hptr, hout, hlen, -⟩ := h
  have htake : (last.take b.ptr).length = b.ptr := by
    rw [List.length_take]
    omega
  refine ⟨_, if_pos (by omega), ⟨init,
    last.take b.ptr ++ buf ++ last.drop (b.ptr + buf.length), ?_, hinit, ?_, hcur, hroom, ?_,
    ?_, ?_⟩, rfl⟩
  · simp only [hblocks, hcur]
    rw [List.modify_eq_take_cons_drop (by simp)]
    simp
  · simp only [List.length_append, List.length_take, List.length_drop]
    omega
  · have hpre : (last.take b.ptr ++ buf).length = b.ptr + buf.length := by
      rw [List.length_append, htake]
    rw [hout, List.append_assoc, ← hpre, List.take_left]
  · rw [List.length_append]
    push_cast
    omega
  · rwa [List.length_append]

theorem Holds.store_fault (h : b.Holds out) (hfit : 2147483648 ≤ out.length + buf.length) :
    b.store buf = .fault := by
  obtain ⟨-, -, -, -, -, -, -, -, hlen, -⟩ := h
  exact if_neg (by omega)

/-- The loop writes what it is given, block by block. -/
theorem Holds.push {n : ℕ} (h : b.Holds out) (hptr : b.ptr < BLOCK_SIZE) (hn : buf.length < n)
    (hfit : out.length + buf.length < 2147483648) :
    ∃ b', write_block.push n b buf = .ok b' ∧ b'.Holds (out ++ buf) := by
  induction n generalizing b out buf with
  | zero => omega
  | succ n ih =>
    by_cases hroom : b.ptr + buf.length ≤ BLOCK_SIZE
    · obtain ⟨b', hstore, hb', -⟩ := h.store hroom hfit
      exact ⟨b', by rw [write_block.push, if_pos hroom, hstore], hb'⟩
    · have hcopy : (buf.take (BLOCK_SIZE - b.ptr)).length = BLOCK_SIZE - b.ptr := by
        rw [List.length_take]
        omega
      have hrest : (buf.drop (BLOCK_SIZE - b.ptr)).length = buf.length - (BLOCK_SIZE - b.ptr) :=
        List.length_drop
      obtain ⟨b₁, hstore, hb₁, hptr₁⟩ :=
        @Holds.store b out (buf.take (BLOCK_SIZE - b.ptr)) h (by omega) (by omega)
      obtain ⟨b', hpush, hb'⟩ := @ih b₁.again _
        (buf.drop (BLOCK_SIZE - b.ptr)) (hb₁.again (by omega))
        (by simp [write_block.again, BLOCK_SIZE]) (by omega)
        (by rw [List.length_append]; omega)
      refine ⟨b', ?_, ?_⟩
      · rw [write_block.push, if_neg hroom]
        simp only [hstore, Outcome.bind, hpush]
      · rwa [List.append_assoc, List.take_append_drop] at hb'

theorem Holds.push_fault {n : ℕ} (h : b.Holds out) (hptr : b.ptr < BLOCK_SIZE)
    (hn : buf.length < n) (hfit : 2147483648 ≤ out.length + buf.length) :
    write_block.push n b buf = .fault := by
  induction n generalizing b out buf with
  | zero => omega
  | succ n ih =>
    by_cases hroom : b.ptr + buf.length ≤ BLOCK_SIZE
    · rw [write_block.push, if_pos hroom, h.store_fault hfit]
    · have hcopy : (buf.take (BLOCK_SIZE - b.ptr)).length = BLOCK_SIZE - b.ptr := by
        rw [List.length_take]
        omega
      have hrest : (buf.drop (BLOCK_SIZE - b.ptr)).length = buf.length - (BLOCK_SIZE - b.ptr) :=
        List.length_drop
      rw [write_block.push, if_neg hroom]
      by_cases hstore : out.length + (buf.take (BLOCK_SIZE - b.ptr)).length < 2147483648
      · obtain ⟨b₁, hok, hb₁, hptr₁⟩ := h.store (by omega) hstore
        simp only [hok, Outcome.bind]
        exact ih (hb₁.again (by omega)) (by simp [write_block.again, BLOCK_SIZE]) (by omega)
          (by rw [List.length_append]; omega)
      · simp only [h.store_fault (not_lt.1 hstore), Outcome.bind]

end write_block

/-! ## What a program writes -/

/-- Behind what the chain holds, the program writes `out`, unless the length of the
chain would leave the `int`. -/
structure Writes (m : Write Unit) (out : List UInt8) : Prop where
  fits : ∀ {b : write_block} {before : List UInt8}, b.Holds before →
    before.length + out.length < 2147483648 → ∃ b', m b = .ok ((), b') ∧ b'.Holds (before ++ out)
  overflows : ∀ {b : write_block} {before : List UInt8}, b.Holds before →
    2147483648 ≤ before.length + out.length → m b = .fault

namespace Writes

variable {m m' : Write Unit} {out out' : List UInt8}

theorem push (buf : List UInt8) : Writes (wb_push buf) buf := by
  have hstart : ∀ {b : write_block} {before : List UInt8}, b.Holds before →
      (if b.ptr = BLOCK_SIZE then b.again else b).Holds before ∧
      (if b.ptr = BLOCK_SIZE then b.again else b).ptr < BLOCK_SIZE := by
    intro b before h
    have hle : b.ptr ≤ BLOCK_SIZE := by
      obtain ⟨-, -, -, -, -, -, hptr, -⟩ := h
      exact hptr
    by_cases hptr : b.ptr = BLOCK_SIZE
    · rw [if_pos hptr]
      exact ⟨h.again hptr, by simp [write_block.again, BLOCK_SIZE]⟩
    · rw [if_neg hptr]
      exact ⟨h, by omega⟩
  refine ⟨?_, ?_⟩
  · intro b before h hfit
    obtain ⟨hholds, hptr⟩ := hstart h
    obtain ⟨b', hpush, hb'⟩ := hholds.push hptr (Nat.lt_succ_self _) hfit
    exact ⟨b', by simp only [wb_push, hpush, Outcome.bind], hb'⟩
  · intro b before h hfit
    obtain ⟨hholds, hptr⟩ := hstart h
    simp only [wb_push, hholds.push_fault hptr (Nat.lt_succ_self _) hfit, Outcome.bind]

theorem pure : Writes (Pure.pure ()) [] := by
  refine ⟨?_, ?_⟩
  · intro b before h _
    exact ⟨b, rfl, by rwa [List.append_nil]⟩
  · intro b before h hfit
    obtain ⟨-, -, -, -, -, -, -, -, -, hint⟩ := h
    rw [List.length_nil] at hfit
    omega

/-- One program after another. -/
theorem seq (h : Writes m out) (h' : Writes m' out') :
    Writes (do m; m') (out ++ out') := by
  have hrun : ∀ b, (do m; m' : Write Unit) b = (m b).bind fun r => m' r.2 := fun _ => rfl
  refine ⟨?_, ?_⟩
  · intro b before hb hfit
    rw [List.length_append] at hfit
    obtain ⟨b₁, hm, hb₁⟩ := h.fits hb (by omega)
    obtain ⟨b₂, hm', hb₂⟩ := h'.fits hb₁ (by rw [List.length_append]; omega)
    refine ⟨b₂, ?_, by rwa [← List.append_assoc]⟩
    rw [hrun, hm]
    exact hm'
  · intro b before hb hfit
    rw [List.length_append] at hfit
    rw [hrun]
    by_cases hfirst : before.length + out.length < 2147483648
    · obtain ⟨b₁, hm, hb₁⟩ := h.fits hb hfirst
      rw [hm]
      exact h'.overflows hb₁ (by rw [List.length_append]; omega)
    · rw [h.overflows hb (not_lt.1 hfirst)]
      rfl

/-- A loop writes what its rounds write. -/
theorem forM {α : Type} {f : α → Write Unit} {stream : α → List UInt8} {l : List α}
    (h : ∀ x ∈ l, Writes (f x) (stream x)) : Writes (l.forM f) (l.flatMap stream) := by
  induction l with
  | nil => exact pure
  | cons x l ih =>
    rw [List.flatMap_cons]
    show Writes (do f x; l.forM f) _
    exact (h x List.mem_cons_self).seq (ih fun y hy => h y (List.mem_cons_of_mem x hy))

end Writes

/-! ## The buffer -/

end DnServer.Skynet
