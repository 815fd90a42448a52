import DnServer.Skynet.Seri.Pack

/-!
# The unpacker of lua-seri

`_luaseri_unpack` reads values off the front of a buffer until it is empty. The
buffer is the bytes that the length given with it covers: what stands outside
may not be read. The branch of `rb_read` for a chain of blocks is never taken.
-/

namespace DnServer.Skynet

open DnServer.Lib

/-! ## Reading bytes -/

structure read_block where
  buffer : List UInt8
  len : ℤ
  ptr : ℤ

/-- A program that reads. -/
abbrev Read (α : Type) := StateT read_block (Outcome String) α

/-- The offset of the next `sz` bytes, or `NULL`. -/
def rb_read (sz : ℤ) : Read (Option ℤ) := fun rb =>
  if rb.len < sz then .ok (none, rb)
  else .ok (some rb.ptr, { rb with ptr := rb.ptr + sz, len := rb.len - sz })

/-- The bytes at an offset, where they may be read. -/
def load (p : ℤ) (n : ℕ) : Read (List UInt8) := fun rb =>
  if 0 ≤ p ∧ p + n ≤ rb.buffer.length then .ok ((rb.buffer.drop p.toNat).take n, rb) else .fault

def _invalid_stream {α : Type} (line : ℕ) : Read α := fun rb =>
  .error s!"Invalid serialize stream {rb.len} (line:{line})"

/-- A number of `n` bytes; where they are missing, the stream is refused. -/
def rb_get (n line : ℕ) : Read ℕ := do
  match ← rb_read n with
  | none => _invalid_stream line
  | some p =>
    let bytes ← load p n
    pure (ofLittleEndian bytes)

def _get_integer (cookie : ℕ) : Read ℤ :=
  match cookie with
  | 0 => pure 0
  | 1 => do pure (← rb_get 1 410)
  | 2 => do pure (← rb_get 2 417)
  | 4 => do pure (signed (← rb_get 4 424))
  | _ => _invalid_stream 428

def _get_number (cookie : ℕ) : Read Double :=
  if cookie = 8 then do pure (BitVec.ofNat 64 (← rb_get 8 439))
  else do pure (.ofInt (← _get_integer cookie))

def _get_pointer : Read (BitVec 64) := do pure (BitVec.ofNat 64 (← rb_get 8 451))

/-- The length of a long string. -/
def get_length (cookie : ℕ) : Read ℤ :=
  if cookie = 2 then do pure (← rb_get 2 515)
  else if cookie = 4 then do pure (signed (← rb_get 4 524))
  else _invalid_stream 520

/-- The string of `len` bytes at a pointer. A negative length is a `size_t` past the end
of every buffer. -/
def lua_pushlstring (p : Option ℤ) (len : ℤ) : Read Value :=
  if len = 0 then pure (.string [])
  else if len < 0 then fun _ => .fault
  else
    match p with
    | none => fun _ => .fault
    | some p => do pure (.string (← load p len.toNat))

def _get_buffer (len : ℤ) : Read Value := do
  let p ← rb_read len
  lua_pushlstring p len

/-! ## Reading values -/

/-- `lua_rawset`, which refuses a key that is not a number. -/
def lua_rawset (es : Entries) (k v : Value) : Read Entries :=
  if k.isNaN then fun _ => .error "table index is NaN" else pure (Entries.rawset es k v)

section Table

/-! The functions on tables, over what reads a value one level further in. -/

variable (lua : Lua) (_unpack_one : Read Value)

/-- The loop over the pairs behind the array part, in at most so many rounds. -/
def unpack_hash : ℕ → Entries → Read Entries
  | 0, _ => fun _ => .unfinished
  | n + 1, es => do
    let k ← _unpack_one
    if k.isNil then pure es
    else do
      let v ← _unpack_one
      let es ← lua_rawset es k v
      unpack_hash n es

/-- The size of the array part, where the first byte has no room for it. -/
def get_long_size : Read ℤ := do
  match ← rb_read 1 with
  | none => _invalid_stream 471
  | some p =>
    let t := ofLittleEndian (← load p 1)
    if t % 8 = TYPE_NUMBER then do pure (← _get_number (t / 8)).toInt
    else _invalid_stream 471

def get_array_size (array_size : ℤ) : Read ℤ :=
  if array_size = MAX_COOKIE - 1 then get_long_size else pure array_size

def lua_createtable (narr : ℤ) : Read Entries :=
  if lua.createtable narr then pure [] else fun _ => .error "not enough memory"

def _unpack_table (n : ℕ) (array_size : ℤ) : Read Value := do
  let array_size ← get_array_size array_size
  let es ← lua_createtable lua array_size
  let es ← (List.range' 1 array_size.toNat).foldlM
    (fun es i => do pure (Entries.rawset es (.index i) (← _unpack_one))) es
  let es ← unpack_hash _unpack_one n es
  pure (.table (lua.border es) es)

/-- The object of a handle: the one the metatable has, or a new one. -/
def get_remote (handle : ℤ) : Value :=
  if (lua.remote handle).isNil then
    let es : Entries := [(Value.remoteKey, .number (.ofInt handle))]
    .table (lua.border es) es
  else lua.remote handle

def _push_value (n type cookie : ℕ) : Read Value :=
  match type with
  | 0 => pure .nil
  | 1 => pure (.boolean (cookie ≠ 0))
  | 2 => do pure (.number (← _get_number cookie))
  | 3 => do pure (.userdata (← _get_pointer))
  | 4 => _get_buffer cookie
  | 5 => do _get_buffer (← get_length cookie)
  | 6 => _unpack_table lua _unpack_one n cookie
  -- `TYPE_REMOTE`: the three bits have no other value.
  | _ => do pure (get_remote lua (← _get_integer cookie))

end Table

/-- `_unpack_one`, in at most so many levels and rounds. -/
def _unpack_one (lua : Lua) : ℕ → Read Value
  | 0 => fun _ => .unfinished
  | n + 1 => do
    let t ← rb_get 1 559
    _push_value lua (_unpack_one lua n) n (t % 8) (t / 8)

/-- What stands on the stack for the buffer: nothing or `nil`, a null pointer, or a
pointer to some bytes. -/
inductive Buffer
  | none
  | null
  | pointer (bytes : ℕ → UInt8)

/-- Behind `pre`, with `rest` to go. -/
def read_block.between (pre rest : List UInt8) : read_block where
  buffer := pre ++ rest
  len := rest.length
  ptr := pre.length

open read_block (between)

section Between

variable {pre rest bs : List UInt8} {n : ℕ}

/-- Taking `bs` off the front. -/
theorem rb_read_of_enough (hbs : bs.length = n) :
    rb_read n (between pre (bs ++ rest)) =
      .ok (some pre.length, between (pre ++ bs) rest) := by
  have hlen : ¬ ((bs ++ rest).length : ℤ) < n := by
    rw [List.length_append]
    omega
  have hleft : ((bs ++ rest).length : ℤ) - n = rest.length := by
    rw [List.length_append]
    push_cast
    omega
  have hptr : (pre.length : ℤ) + n = (pre ++ bs).length := by
    rw [List.length_append]
    push_cast
    omega
  simp only [rb_read, between, if_neg hlen, hleft, hptr, List.append_assoc]

theorem rb_read_of_short (h : rest.length < n) :
    rb_read n (between pre rest) = .ok (none, between pre rest) :=
  if_pos (by simpa [between] using h)

/-- What has been read is in the buffer. -/
theorem load_between (hbs : bs.length = n) :
    load pre.length n (between (pre ++ bs) rest) = .ok (bs, between (pre ++ bs) rest) := by
  have hin : (0 : ℤ) ≤ pre.length ∧
      (pre.length : ℤ) + n ≤ (between (pre ++ bs) rest).buffer.length := by
    simp only [between, List.length_append]
    omega
  have hbytes : ((between (pre ++ bs) rest).buffer.drop (pre.length : ℤ).toNat).take n = bs := by
    simp only [between, Int.toNat_natCast, List.append_assoc, List.drop_left]
    rw [← hbs, List.take_left]
  rw [load, if_pos hin, hbytes]

theorem rb_get_of_enough (hbs : bs.length = n) (line : ℕ) :
    rb_get n line (between pre (bs ++ rest)) =
      .ok (ofLittleEndian bs, between (pre ++ bs) rest) := by
  have hrun : rb_get n line (between pre (bs ++ rest)) =
      (rb_read n (between pre (bs ++ rest))).bind fun r =>
        (match r.1 with
          | none => _invalid_stream line
          | some p => do
            let bytes ← load p n
            pure (ofLittleEndian bytes) : Read ℕ) r.2 := rfl
  rw [hrun, rb_read_of_enough hbs]
  show (load pre.length n (between (pre ++ bs) rest)).bind
    (fun r => .ok (ofLittleEndian r.1, r.2)) = _
  rw [load_between hbs]
  rfl

theorem rb_get_of_short (h : rest.length < n) (line : ℕ) :
    rb_get n line (between pre rest) = _invalid_stream line (between pre rest) := by
  have hrun : rb_get n line (between pre rest) =
      (rb_read n (between pre rest)).bind fun r =>
        (match r.1 with
          | none => _invalid_stream line
          | some p => do
            let bytes ← load p n
            pure (ofLittleEndian bytes) : Read ℕ) r.2 := rfl
  rw [hrun, rb_read_of_short h]
  rfl

/-- Reading a byte where there may be none. -/
theorem rb_byte {α : Type} (x : Read α) (f : ℕ → Read α) (b : UInt8) :
    (do
      match ← rb_read 1 with
      | none => x
      | some p =>
        let t := ofLittleEndian (← load p 1)
        f t : Read α) (between pre (b :: rest)) = f b.toNat (between (pre ++ [b]) rest) := by
  have hread : rb_read 1 (between pre (b :: rest)) =
      .ok (some pre.length, between (pre ++ [b]) rest) :=
    @rb_read_of_enough pre rest [b] 1 rfl
  have hload : load pre.length 1 (between (pre ++ [b]) rest) =
      .ok ([b], between (pre ++ [b]) rest) := @load_between pre rest [b] 1 rfl
  have hbyte : ofLittleEndian [b] = b.toNat := by simp [ofLittleEndian]
  show (rb_read 1 (between pre (b :: rest))).bind (fun r =>
    (match r.1 with
      | none => x
      | some p => do
        let t := ofLittleEndian (← load p 1)
        f t : Read α) r.2) = _
  rw [hread]
  show (load pre.length 1 (between (pre ++ [b]) rest)).bind
    (fun r => f (ofLittleEndian r.1) r.2) = _
  rw [hload, ← hbyte]
  rfl

/-- Where none is left, the reader goes on without it. -/
theorem rb_byte_end {α : Type} {rb : read_block} (h : rb.len < 1) (x : Read α)
    (f : ℕ → Read α) :
    (do
      match ← rb_read 1 with
      | none => x
      | some p =>
        let t := ofLittleEndian (← load p 1)
        f t : Read α) rb = x rb := by
  have hread : rb_read 1 rb = .ok (none, rb) := if_pos h
  show (rb_read 1 rb).bind (fun r =>
    (match r.1 with
      | none => x
      | some p => do
        let t := ofLittleEndian (← load p 1)
        f t : Read α) r.2) = _
  rw [hread]
  rfl

theorem between_end {pre : List UInt8} : (between pre []).len < 1 := Int.zero_lt_one

end Between

/-- The reader takes `out` off the front and gives `a`. -/
def Decodes {α : Type} (m : Read α) (out : List UInt8) (a : α) : Prop :=
  ∀ pre rest, m (between pre (out ++ rest)) = .ok (a, between (pre ++ out) rest)

namespace Decodes

variable {α β : Type} {m : Read α} {f : α → Read β} {out out' : List UInt8} {a : α} {b : β}

theorem pure (a : α) : Decodes (Pure.pure a) [] a := by
  intro pre rest
  rw [List.append_nil]
  rfl

/-- One reader after the other. -/
theorem bind (h : Decodes m out a) (h' : Decodes (f a) out' b) :
    Decodes (m >>= f) (out ++ out') b := by
  intro pre rest
  show (m (between pre (out ++ out' ++ rest))).bind (fun r => f r.1 r.2) = _
  rw [List.append_assoc, h]
  show f a (between (pre ++ out) (out' ++ rest)) = _
  rw [h', List.append_assoc]

/-- What is made of the result. -/
theorem map (h : Decodes m out a) (g : α → β) :
    Decodes (do Pure.pure (g (← m))) out (g a) := by
  have hbind := h.bind (f := fun x => Pure.pure (g x)) (Decodes.pure (g a))
  rwa [List.append_nil] at hbind

theorem get {n : ℕ} {bs : List UInt8} (hbs : bs.length = n) (line : ℕ) :
    Decodes (rb_get n line) bs (ofLittleEndian bs) :=
  fun _ _ => rb_get_of_enough hbs line

/-- A loop over a list, each round taking its own stream. -/
theorem foldlM {ι : Type} {l : List ι} {step : α → ι → Read α} {stream : ι → List UInt8}
    {next : α → ι → α} (h : ∀ x ∈ l, ∀ a, Decodes (step a x) (stream x) (next a x)) (a : α) :
    Decodes (l.foldlM step a) (l.flatMap stream) (l.foldl next a) := by
  induction l generalizing a with
  | nil => exact Decodes.pure a
  | cons x l ih =>
    rw [List.foldlM_cons, List.flatMap_cons, List.foldl_cons]
    exact (h x List.mem_cons_self a).bind
      (ih (fun y hy => h y (List.mem_cons_of_mem x hy)) (next a x))

end Decodes

end DnServer.Skynet
