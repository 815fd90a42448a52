import DnServer.Lib.Numeral

/-!
# The socket buffer of the Redis client

`lua-socket.c` keeps the bytes the connection service pushed and nobody read
yet in one block of memory: `size` bytes are in it and the first `read` of them
are spent. Pushing grows the block, moves what is unread to its front or fills
in behind, as there is room. A reader sees none of this: `unread` is all that
`push`, `read` and `readline` depend on.

The counts are natural numbers here and `int`s in C, which cuts a length it is given to one.
The two are the same while what is unread, the bytes pushed behind it and the bytes asked for
are fewer than `2 ^ 31` (`Connection.Small.exec`); the replies and the chunks of `Link` are of
that kind.
-/

namespace DnServer.Redis

open DnServer.Lib

/-! ## Memory -/

/-- `n` bytes of `mem` from `i` on. -/
def window (mem : Bytes) (i n : ℕ) : Bytes := (mem.drop i).take n

/-- `src` over `dst`, from `i` on. -/
def memcpy (dst : Bytes) (i : ℕ) (src : Bytes) : Bytes :=
  dst.take i ++ src ++ dst.drop (i + src.length)

/-- The bytes a grown block adds are not set by anyone; here they are zero. -/
def realloc (mem : Bytes) (n : ℕ) : Bytes := mem.take n ++ List.replicate (n - mem.length) 0

@[simp]
theorem window_zero (mem : Bytes) (i : ℕ) : window mem i 0 = [] := by simp [window]

theorem window_all (mem : Bytes) : window mem 0 mem.length = mem := by simp [window]

theorem length_window {mem : Bytes} {i n : ℕ} (h : i + n ≤ mem.length) :
    (window mem i n).length = n := by
  simp [window]
  omega

@[simp]
theorem length_realloc (mem : Bytes) (n : ℕ) : (realloc mem n).length = n := by
  simp [realloc]
  omega

theorem length_memcpy {dst src : Bytes} {i : ℕ} (h : i + src.length ≤ dst.length) :
    (memcpy dst i src).length = dst.length := by
  simp [memcpy]
  omega

/-- A window that starts before the copied bytes and ends with them. -/
theorem window_memcpy (dst src : Bytes) {r i : ℕ} (hr : r ≤ i) (h : i + src.length ≤ dst.length) :
    window (memcpy dst i src) r (i - r + src.length) = window dst r (i - r) ++ src := by
  have htake : (dst.take i).length = i := by simp; omega
  unfold window memcpy
  rw [List.append_assoc, List.drop_append_of_le_length (by omega), List.take_append]
  have hlen : ((dst.take i).drop r).length = i - r := by simp; omega
  rw [hlen, List.take_of_length_le (by omega)]
  congr 1
  · rw [List.drop_take]
  · rw [show i - r + src.length - (i - r) = src.length by omega, List.take_left]

theorem window_realloc {mem : Bytes} {i n k : ℕ} (h : i + n ≤ mem.length) (hk : i + n ≤ k) :
    window (realloc mem k) i n = window mem i n := by
  unfold window realloc
  rw [List.drop_append_of_le_length (by simp; omega), List.take_append_of_le_length (by simp; omega),
    List.drop_take, List.take_take]
  congr 1
  omega

/-- The first bytes of a window are gone. -/
theorem window_drop (mem : Bytes) (i n k : ℕ) :
    (window mem i n).drop k = window mem (i + k) (n - k) := by
  simp [window, List.drop_take]

theorem window_take {mem : Bytes} {i n k : ℕ} (h : k ≤ n) :
    (window mem i n).take k = window mem i k := by
  simp [window, List.take_take, h]

/-- What `memcmp` compares within the first `size` bytes. -/
theorem prefix_window_iff {mem sep : Bytes} {size i : ℕ} (hsize : size ≤ mem.length)
    (hi : i ≤ size) :
    sep <+: window mem i (size - i) ↔ i + sep.length ≤ size ∧ window mem i sep.length = sep := by
  have hlen : (window mem i (size - i)).length = size - i := length_window (by omega)
  rw [List.prefix_iff_eq_take]
  constructor
  · intro h
    have hle := congrArg List.length h
    rw [List.length_take, hlen] at hle
    rw [window_take (by omega)] at h
    exact ⟨by omega, h.symm⟩
  · rintro ⟨hle, h⟩
    rw [window_take (by omega), h]

/-! ## The buffer -/

/-- `struct buffer`. `cap` may lag behind the block: the branch of `push` that takes a
new block does not raise it. -/
structure Buffer where
  cap : ℕ
  size : ℕ
  buffer : Bytes
  read : ℕ
  read_le : read ≤ size
  size_le : size ≤ buffer.length
  cap_le : cap ≤ buffer.length

namespace Buffer

/-- `_new`. -/
def new : Buffer := ⟨0, 0, [], 0, le_rfl, le_rfl, le_rfl⟩

/-- The bytes pushed and not read yet. -/
def unread (b : Buffer) : Bytes := window b.buffer b.read (b.size - b.read)

theorem length_unread (b : Buffer) : b.unread.length = b.size - b.read := by
  have := b.read_le
  have := b.size_le
  exact length_window (by omega)

/-- `_push`. -/
def push (b : Buffer) (buf : Bytes) : Buffer :=
  have h1 := b.read_le
  have h2 := b.size_le
  have h3 := b.cap_le
  let old_size := b.size - b.read
  if hcap : b.cap < buf.length + old_size then
    if hread : b.read = 0 then
      { cap := buf.length + old_size
        size := b.size + buf.length
        buffer := memcpy (realloc b.buffer (buf.length + old_size)) old_size buf
        read := 0
        read_le := by omega
        size_le := by rw [length_memcpy (by simp; omega), length_realloc]; omega
        cap_le := by rw [length_memcpy (by simp; omega), length_realloc] }
    else
      { cap := b.cap
        size := old_size + buf.length
        buffer := window b.buffer b.read old_size ++ buf
        read := 0
        read_le := by omega
        size_le := by rw [List.length_append, length_window (by omega)]
        cap_le := by rw [List.length_append, length_window (by omega)]; omega }
  else if hsize : b.cap < b.size + buf.length then
    { cap := b.cap
      size := old_size + buf.length
      buffer := memcpy (memcpy b.buffer 0 (window b.buffer b.read old_size)) old_size buf
      read := 0
      read_le := by omega
      size_le := by
        have hw : (window b.buffer b.read old_size).length = old_size := length_window (by omega)
        rw [length_memcpy (by rw [length_memcpy (by omega)]; omega), length_memcpy (by omega)]
        omega
      cap_le := by
        have hw : (window b.buffer b.read old_size).length = old_size := length_window (by omega)
        rw [length_memcpy (by rw [length_memcpy (by omega)]; omega), length_memcpy (by omega)]
        omega }
  else
    { cap := b.cap
      size := b.size + buf.length
      buffer := memcpy b.buffer b.size buf
      read := b.read
      read_le := by omega
      size_le := by rw [length_memcpy (by omega)]; omega
      cap_le := by rw [length_memcpy (by omega)]; omega }

/-- `_read`: the next `need` bytes, if so many are there; `need` fits an `int`. -/
def readBytes (b : Buffer) (need : ℕ) : Option (Bytes × Buffer) :=
  if h : need ≤ b.size - b.read then
    some (window b.buffer b.read need,
      { b with read := b.read + need, read_le := by have := b.read_le; omega })
  else none

/-- The loop of `_readline`: the first `i` at which `sep` stands. -/
def findSep (mem sep : Bytes) (size : ℕ) : ℕ → ℕ → Option ℕ
  | 0, _ => none
  | n + 1, i =>
    if i + sep.length ≤ size then
      if window mem i sep.length = sep then some i else findSep mem sep size n (i + 1)
    else none

theorem findSep_bounds {mem sep : Bytes} {size n i j : ℕ} (h : findSep mem sep size n i = some j) :
    i ≤ j ∧ j + sep.length ≤ size := by
  induction n generalizing i with
  | zero => cases h
  | succ n ih =>
    simp only [findSep] at h
    split at h
    · split at h
      · obtain rfl := Option.some.inj h
        exact ⟨le_rfl, by assumption⟩
      · have := ih h
        omega
    · cases h

/-- `_readline`: the bytes before the next `sep`, which is spent too. -/
def readline (b : Buffer) (sep : Bytes) : Option (Bytes × Buffer) :=
  match h : findSep b.buffer sep b.size (b.size + 1 - b.read) b.read with
  | none => none
  | some i =>
    some (window b.buffer b.read (i - b.read),
      { b with read := i + sep.length, read_le := (findSep_bounds h).2 })

/-! ## What a reader sees -/

/-- Pushed bytes stand behind the unread ones, whichever way room was made. -/
@[simp]
theorem unread_push (b : Buffer) (buf : Bytes) : (b.push buf).unread = b.unread ++ buf := by
  have h1 := b.read_le
  have h2 := b.size_le
  have h3 := b.cap_le
  simp only [push]
  split
  · split
    · rename_i hcap hread
      simp only [unread, hread, Nat.sub_zero]
      have hw := window_memcpy (realloc b.buffer (buf.length + b.size)) buf (r := 0) (i := b.size)
        (by omega) (by simp; omega)
      simp only [Nat.sub_zero] at hw
      rw [hw, window_realloc (by omega) (by omega)]
    · have hlen : (window b.buffer b.read (b.size - b.read)).length = b.size - b.read :=
        length_window (by omega)
      have hall := window_all (window b.buffer b.read (b.size - b.read) ++ buf)
      rw [List.length_append, hlen] at hall
      exact hall
  · split
    · have hlen : (window b.buffer b.read (b.size - b.read)).length = b.size - b.read :=
        length_window (by omega)
      have hw := window_memcpy (memcpy b.buffer 0 (window b.buffer b.read (b.size - b.read))) buf
        (r := 0) (i := b.size - b.read) (by omega)
        (by rw [length_memcpy (by omega)]; omega)
      have hmove := window_memcpy b.buffer (window b.buffer b.read (b.size - b.read)) (r := 0) (i := 0)
        (by omega) (by omega)
      rw [hlen] at hmove
      simp only [Nat.sub_zero, Nat.zero_add, window_zero, List.nil_append] at hw hmove
      rw [hmove] at hw
      exact hw
    · rename_i hcap hsize
      simp only [unread]
      rw [show b.size + buf.length - b.read = b.size - b.read + buf.length by omega]
      exact window_memcpy _ _ (by omega) (by omega)

/-- `read` takes the next bytes, or finds too few. -/
theorem readBytes_eq (b : Buffer) (need : ℕ) :
    (b.readBytes need).map (fun p => (p.1, p.2.unread)) =
      if need ≤ b.unread.length then some (b.unread.take need, b.unread.drop need) else none := by
  rw [length_unread]
  unfold readBytes
  split
  · simp only [Option.map_some, unread, window_take (by assumption), window_drop, Nat.sub_sub]
  · rfl

/-- The loop stops at the first place where `sep` stands. -/
theorem findSep_first {mem sep : Bytes} {size n i j : ℕ} (hsize : size ≤ mem.length)
    (hi : i ≤ size) (h : findSep mem sep size n i = some j) :
    sep <+: window mem j (size - j) ∧
      ∀ k, i ≤ k → k < j → ¬ sep <+: window mem k (size - k) := by
  induction n generalizing i with
  | zero => cases h
  | succ n ih =>
    simp only [findSep] at h
    split at h
    · rename_i hle
      split at h
      · rename_i heq
        obtain rfl := Option.some.inj h
        exact ⟨(prefix_window_iff hsize hi).mpr ⟨hle, heq⟩, fun k _ _ => by omega⟩
      · rename_i heq
        have hj := findSep_bounds h
        obtain ⟨hpre, hfirst⟩ := ih (by omega) h
        refine ⟨hpre, fun k hk hkj => ?_⟩
        rcases Nat.eq_or_lt_of_le hk with rfl | hlt
        · exact fun hsep => heq ((prefix_window_iff hsize hi).mp hsep).2
        · exact hfirst k hlt hkj
    · cases h

/-- A loop that finds nothing was at every place. -/
theorem findSep_none {mem sep : Bytes} {size n i : ℕ} (hsize : size ≤ mem.length)
    (hn : size - i < n) (h : findSep mem sep size n i = none) {k : ℕ} (hk : i ≤ k)
    (hks : k ≤ size) : ¬ sep <+: window mem k (size - k) := by
  induction n generalizing i with
  | zero => omega
  | succ n ih =>
    simp only [findSep] at h
    split at h
    · split at h
      · cases h
      · rename_i heq
        rcases Nat.eq_or_lt_of_le hk with rfl | hlt
        · exact fun hsep => heq ((prefix_window_iff hsize hks).mp hsep).2
        · exact ih (by omega) h hlt
    · intro hsep
      have := ((prefix_window_iff hsize hks).mp hsep).1
      omega

/-- The bytes before the first `sep`, and what stands behind it. -/
def cut (sep : Bytes) : Bytes → Option (Bytes × Bytes)
  | [] => none
  | x :: l =>
    if sep <+: x :: l then some ([], (x :: l).drop sep.length)
    else (cut sep l).map fun p => (x :: p.1, p.2)

/-- The loop finds the place where `cut` divides the window. -/
theorem findSep_cut {mem sep : Bytes} {size : ℕ} (hsep : sep ≠ []) (hsize : size ≤ mem.length)
    {n i : ℕ} (hi : i ≤ size) (hn : size - i < n) :
    (findSep mem sep size n i).map
        (fun j => (window mem i (j - i), window mem (j + sep.length) (size - (j + sep.length)))) =
      cut sep (window mem i (size - i)) := by
  have hpos : 0 < sep.length := List.length_pos_iff.mpr hsep
  induction n generalizing i with
  | zero => omega
  | succ n ih =>
    simp only [findSep]
    rcases Nat.lt_or_ge i size with hlt | hge
    · obtain ⟨x, hx⟩ : ∃ x, window mem i (size - i) = x :: window mem (i + 1) (size - (i + 1)) := by
        refine ⟨mem[i], ?_⟩
        unfold window
        rw [List.drop_eq_getElem_cons (by omega), show size - i = size - (i + 1) + 1 by omega]
        rfl
      have hpre : sep <+: window mem i (size - i) ↔ _ := prefix_window_iff hsize hi
      rw [hx] at hpre ⊢
      simp only [cut, hpre]
      rw [← ih (by omega) (by omega)]
      split
      · rename_i hle
        split
        · rename_i hw
          rw [if_pos ⟨hle, hw⟩, ← hx, window_drop]
          simp [Nat.sub_sub]
        · rename_i hw
          rw [if_neg (fun h => hw h.2), Option.map_map]
          cases hf : findSep mem sep size n (i + 1) with
          | none => rfl
          | some j =>
            have hj := findSep_bounds hf
            obtain ⟨k, rfl⟩ : ∃ k, j = i + 1 + k := ⟨j - (i + 1), by omega⟩
            simp only [Option.map_some, Function.comp]
            congr 2
            have htake := congrArg (List.take (k + 1)) hx
            rw [window_take (by omega), List.take_succ_cons, window_take (by omega)] at htake
            rw [show i + 1 + k - i = k + 1 by omega, show i + 1 + k - (i + 1) = k by omega, htake]
      · rename_i hle
        have hnone : findSep mem sep size n (i + 1) = none := by
          rw [Option.eq_none_iff_forall_ne_some]
          intro j hj
          have := findSep_bounds hj
          omega
        rw [if_neg (fun h => hle h.1), hnone]
        rfl
    · obtain rfl : i = size := by omega
      rw [if_neg (by omega), Nat.sub_self, window_zero]
      rfl

/-- `readline` divides the unread bytes at the first separator. -/
theorem readline_eq (b : Buffer) {sep : Bytes} (hsep : sep ≠ []) :
    (b.readline sep).map (fun p => (p.1, p.2.unread)) = cut sep b.unread := by
  have h := b.read_le
  have hcut := findSep_cut hsep b.size_le h (n := b.size + 1 - b.read) (by omega)
  rw [show b.unread = window b.buffer b.read (b.size - b.read) from rfl, ← hcut]
  unfold readline
  split
  · rename_i hf
    rw [hf]
    rfl
  · rename_i i hf
    exact (congrArg (Option.map fun j => (window b.buffer b.read (j - b.read),
      window b.buffer (j + sep.length) (b.size - (j + sep.length)))) hf).symm

/-! ## Dividing at a separator -/

theorem cut_length {sep l a r : Bytes} (h : cut sep l = some (a, r)) :
    a.length + sep.length + r.length = l.length := by
  induction l generalizing a with
  | nil => cases h
  | cons x l ih =>
    simp only [cut] at h
    split at h
    · rename_i hpre
      obtain ⟨rfl, rfl⟩ := Prod.mk.inj (Option.some.inj h)
      have := hpre.length_le
      rw [List.length_drop, List.length_nil]
      omega
    · obtain ⟨p, hp, hpa⟩ := Option.map_eq_some_iff.mp h
      obtain ⟨rfl, rfl⟩ := Prod.mk.inj hpa
      have := ih hp
      simp only [List.length_cons]
      omega

/-- A separator found stays the first one, whatever arrives behind. -/
theorem cut_append {sep l a r : Bytes} (h : cut sep l = some (a, r)) (more : Bytes) :
    cut sep (l ++ more) = some (a, r ++ more) := by
  induction l generalizing a with
  | nil => cases h
  | cons x l ih =>
    simp only [cut] at h
    simp only [List.cons_append, cut]
    split at h
    · rename_i hpre
      obtain ⟨rfl, rfl⟩ := Prod.mk.inj (Option.some.inj h)
      rw [← List.cons_append, if_pos (hpre.trans (List.prefix_append (x :: l) more)),
        List.drop_append_of_le_length hpre.length_le]
    · rename_i hpre
      obtain ⟨p, hp, hpa⟩ := Option.map_eq_some_iff.mp h
      obtain ⟨rfl, rfl⟩ := Prod.mk.inj hpa
      -- `sep` does not stand at the front: it is found within `l`, so it is no longer than `l`
      have hlen := cut_length hp
      have hpre' : ¬ sep <+: x :: (l ++ more) := by
        intro h'
        apply hpre
        rw [← List.cons_append] at h'
        apply List.prefix_of_prefix_length_le h' (List.prefix_append _ _)
        rw [List.length_cons]
        omega
      rw [if_neg hpre', ih hp]
      rfl

end Buffer

end DnServer.Redis
