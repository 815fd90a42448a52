import DnServer.Lib.Numeral

/-!
# Byte memory

Memory with an address for each byte, and 32-bit integers in it, least byte
first. What is written stays, and everything else is unchanged.
-/

namespace DnServer.Lib

abbrev Memory := ℕ → UInt8

namespace Memory

/-- The byte of significance `k`. -/
def byteOf (v : ℤ) (k : ℕ) : UInt8 := UInt8.ofNat ((v % 4294967296).toNat / 256 ^ k)

/-- The four bytes at `a`. -/
def word (m : Memory) (a : ℕ) : ℕ :=
  (m a).toNat + 256 * (m (a + 1)).toNat + 65536 * (m (a + 2)).toNat + 16777216 * (m (a + 3)).toNat

/-- The signed integer at `a`. -/
def getInt (m : Memory) (a : ℕ) : ℤ :=
  if word m a < 2147483648 then word m a else word m a - 4294967296

def putInt (m : Memory) (a : ℕ) (v : ℤ) : Memory := fun i =>
  if a ≤ i ∧ i < a + 4 then byteOf v (i - a) else m i

def putBytes (m : Memory) (a : ℕ) (l : Bytes) : Memory := fun i =>
  if a ≤ i then (l[i - a]?).getD (m i) else m i

/-- The `n` bytes from `a` on. -/
def bytes (m : Memory) (a n : ℕ) : Bytes := (List.range n).map fun i => m (a + i)

/-- The same bytes, each with its address. -/
def cells (m : Memory) (a n : ℕ) : List (ℕ × UInt8) := (List.range n).map fun i => (a + i, m (a + i))

/-- What an `int` can hold. -/
def IsInt (v : ℤ) : Prop := -2 ^ 31 ≤ v ∧ v < 2 ^ 31

/-! ## Integers -/

/-- A number that is too long for an `int` is stored as what is left of it. -/
theorem getInt_putInt_bmod (m : Memory) (a : ℕ) (v : ℤ) :
    getInt (putInt m a v) a = v.bmod 4294967296 := by
  have hbyte : ∀ k : ℕ, k < 4 → putInt m a v (a + k) = byteOf v k := by
    intro k hk
    unfold putInt
    rw [if_pos (by omega), Nat.add_sub_cancel_left]
  have h0 := hbyte 0 (by omega)
  rw [Nat.add_zero] at h0
  have hword : word (putInt m a v) a = (v % 4294967296).toNat := by
    unfold word
    rw [h0, hbyte 1 (by omega), hbyte 2 (by omega), hbyte 3 (by omega)]
    -- the four digits of the number to base 256
    unfold byteOf
    generalize hw : (v % 4294967296).toNat = w
    have hlt : w < 4294967296 := by omega
    simp only [UInt8.toNat_ofNat']
    norm_num
    omega
  unfold getInt
  rw [hword, Int.bmod_def]
  split <;> split <;> omega

theorem getInt_putInt (m : Memory) (a : ℕ) {v : ℤ} (h : IsInt v) : getInt (putInt m a v) a = v := by
  unfold IsInt at h
  rw [getInt_putInt_bmod, Int.bmod_eq_of_le (by omega) (by omega)]

/-- Integers at places with the same bytes are the same. -/
theorem getInt_congr {m m' : Memory} {a : ℕ} (h : ∀ i, a ≤ i → i < a + 4 → m' i = m i) :
    getInt m' a = getInt m a := by
  unfold getInt word
  rw [h a (by omega) (by omega), h (a + 1) (by omega) (by omega), h (a + 2) (by omega) (by omega),
    h (a + 3) (by omega) (by omega)]

theorem putInt_outside {m : Memory} {a i : ℕ} {v : ℤ} (h : i < a ∨ a + 4 ≤ i) :
    putInt m a v i = m i := if_neg (by omega)

theorem getInt_putInt_of_disjoint {m : Memory} {a b : ℕ} {v : ℤ} (h : a + 4 ≤ b ∨ b + 4 ≤ a) :
    getInt (putInt m a v) b = getInt m b := by
  apply getInt_congr
  intro i _ _
  exact putInt_outside (by omega)

/-! ## Blocks of bytes -/

@[simp]
theorem length_bytes (m : Memory) (a n : ℕ) : (bytes m a n).length = n := by simp [bytes]

@[simp]
theorem bytes_zero (m : Memory) (a : ℕ) : bytes m a 0 = [] := rfl

theorem putBytes_outside {m : Memory} {a i : ℕ} {l : Bytes} (h : i < a ∨ a + l.length ≤ i) :
    putBytes m a l i = m i := by
  unfold putBytes
  by_cases hi : a ≤ i
  · rw [if_pos hi, List.getElem?_eq_none (by omega)]
    rfl
  · exact if_neg hi

/-- Blocks with the same bytes are the same. -/
theorem bytes_congr {m m' : Memory} {a a' n : ℕ} (h : ∀ i < n, m' (a' + i) = m (a + i)) :
    bytes m' a' n = bytes m a n := by
  unfold bytes
  refine List.map_congr_left fun i hi => ?_
  exact h i (List.mem_range.mp hi)

theorem bytes_add (m : Memory) (a n k : ℕ) :
    bytes m a (n + k) = bytes m a n ++ bytes m (a + n) k := by
  unfold bytes
  rw [List.range_add, List.map_append, List.map_map]
  refine congrArg _ (List.map_congr_left fun i _ => ?_)
  exact congrArg m (Nat.add_assoc a n i).symm

theorem take_bytes (m : Memory) (a n k : ℕ) : (bytes m a n).take k = bytes m a (min k n) := by
  rcases Nat.le_total k n with hle | hge
  · obtain ⟨r, rfl⟩ := Nat.exists_eq_add_of_le hle
    rw [bytes_add, List.take_left' (length_bytes m a k), Nat.min_eq_left hle]
  · rw [List.take_of_length_le (by simpa using hge), Nat.min_eq_right hge]

/-- What was written is there. -/
theorem bytes_putBytes (m : Memory) (a : ℕ) (l : Bytes) :
    bytes (putBytes m a l) a l.length = l := by
  unfold bytes
  refine List.ext_getElem (by simp) fun i hi hl => ?_
  rw [List.getElem_map, List.getElem_range]
  unfold putBytes
  rw [if_pos (Nat.le_add_right a i), Nat.add_sub_cancel_left, List.getElem?_eq_getElem hl]
  rfl

/-! ## Bytes with their addresses -/

@[simp]
theorem length_cells (m : Memory) (a n : ℕ) : (cells m a n).length = n := by simp [cells]

theorem map_snd_cells (m : Memory) (a n : ℕ) : (cells m a n).map Prod.snd = bytes m a n := by
  unfold cells bytes
  rw [List.map_map]
  rfl

theorem mem_cells {m : Memory} {a n : ℕ} {x : ℕ × UInt8} :
    x ∈ cells m a n ↔ a ≤ x.1 ∧ x.1 < a + n ∧ m x.1 = x.2 := by
  unfold cells
  rw [List.mem_map]
  constructor
  · rintro ⟨i, hi, rfl⟩
    have := List.mem_range.mp hi
    exact ⟨Nat.le_add_right .., Nat.add_lt_add_left this a, rfl⟩
  · rintro ⟨hle, hlt, hx⟩
    refine ⟨x.1 - a, List.mem_range.mpr (by omega), ?_⟩
    rw [Nat.add_sub_cancel' hle, hx]

theorem cells_congr {m m' : Memory} {a n : ℕ} (h : ∀ i < n, m' (a + i) = m (a + i)) :
    cells m' a n = cells m a n := by
  unfold cells
  exact List.map_congr_left fun i hi => by rw [h i (List.mem_range.mp hi)]

theorem cells_add (m : Memory) (a n k : ℕ) :
    cells m a (n + k) = cells m a n ++ cells m (a + n) k := by
  unfold cells
  rw [List.range_add, List.map_append, List.map_map]
  refine congrArg _ (List.map_congr_left fun i _ => ?_)
  show (a + (n + i), m (a + (n + i))) = _
  rw [Nat.add_assoc]

theorem drop_cells (m : Memory) (a n k : ℕ) :
    (cells m a n).drop k = cells m (a + k) (n - k) := by
  rcases Nat.le_total k n with hle | hge
  · obtain ⟨r, rfl⟩ := Nat.exists_eq_add_of_le hle
    rw [cells_add, List.drop_left' (length_cells m a k), Nat.add_sub_cancel_left]
  · rw [List.drop_eq_nil_of_le (by simpa using hge), Nat.sub_eq_zero_of_le hge]
    rfl

theorem take_cells {m : Memory} {a n k : ℕ} (h : k ≤ n) : (cells m a n).take k = cells m a k := by
  obtain ⟨r, rfl⟩ := Nat.exists_eq_add_of_le h
  rw [cells_add, List.take_left' (length_cells m a k)]

theorem map_fst_cells (m : Memory) (a n : ℕ) : (cells m a n).map Prod.fst = List.range' a n := by
  unfold cells
  rw [List.map_map, List.range'_eq_map_range]
  rfl

theorem getElem?_bytes {m : Memory} {a n i : ℕ} (h : i < n) : (bytes m a n)[i]? = some (m (a + i)) := by
  unfold bytes
  rw [List.getElem?_map, List.getElem?_range h]
  rfl

-- From here on memory is known by the lemmas above only.
attribute [irreducible] getInt putInt putBytes bytes cells

end Memory

end DnServer.Lib
