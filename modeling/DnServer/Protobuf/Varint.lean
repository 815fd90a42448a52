import DnServer.Lib.Varint

/-!
# The numbers of a message

What `varint.c` writes for a number and what it reads. The reader puts the groups of the upper
bits together in an `int`: from the ninth byte on the shift may leave its range, and what it then
gives C leaves open. So a number comes back for sure just when it is below `2 ^ 59`.

* `pbcV_decode_encode_iff`: up to eight groups the shifts are inside the `int`
  (`decode_groups_eq`); of the ninth the lower bits only (`pbcV_decode_hi`).
-/

namespace DnServer.Protobuf

open DnServer.Lib

/-- `struct longlong`. -/
structure Longlong where
  low : UInt32
  hi : UInt32
  deriving DecidableEq, Repr

/-- The two words of a number. -/
def Longlong.ofNat (n : ℕ) : Longlong := ⟨UInt32.ofNat n, UInt32.ofNat (n / 2 ^ 32)⟩

/-- `(uint8_t) (number | 0x80)`. -/
def continued (number : ℕ) : UInt8 := UInt8.ofNat (number ||| 0x80)

def pbcV_encode32 (number : UInt32) : List UInt8 :=
  let n := number.toNat
  if n < 0x80 then [UInt8.ofNat n]
  else if n < 0x4000 then [continued n, UInt8.ofNat (n >>> 7)]
  else if n < 0x200000 then [continued n, continued (n >>> 7), UInt8.ofNat (n >>> 14)]
  else if n < 0x10000000 then
    [continued n, continued (n >>> 7), continued (n >>> 14), UInt8.ofNat (n >>> 21)]
  else
    [continued n, continued (n >>> 7), continued (n >>> 14), continued (n >>> 21),
      UInt8.ofNat (n >>> 28)]

/-- `do { .. } while (number >= 0x80)`, in at most so many turns, and the byte behind them. -/
def encode_groups : ℕ → ℕ → List UInt8
  | 0, number => [UInt8.ofNat number]
  | turns + 1, number =>
    continued number ::
      if 0x80 ≤ number >>> 7 then encode_groups turns (number >>> 7)
      else [UInt8.ofNat (number >>> 7)]

def pbcV_encode (number : UInt64) : List UInt8 :=
  if number.toNat &&& 0xffffffff = number.toNat then pbcV_encode32 number.toUInt32
  else encode_groups 9 number.toNat

/-- `g << k` on an `int`; `undef` is what it gives where C does not say. -/
def shl (undef : ℕ → ℕ → ℕ) (g k : ℕ) : ℕ :=
  if k < 32 ∧ g <<< k < 2 ^ 31 then g <<< k else undef g k

/-- One of the two loops of `_pbcV_decode`, from place `i` on: the bits that were read, and after
how many bytes the number has ended if it has. -/
def decode_groups (shift : ℕ → ℕ → ℕ) (buffer : ℕ → Option UInt8) (base : ℕ) :
    ℕ → ℕ → ℕ → Option (ℕ ⊕ ℕ × ℕ)
  | 0, _, r => some (.inl r)
  | turns + 1, i, r => do
    let b ← buffer i
    let r := r ||| shift (b.toNat &&& 0x7f) (7 * (i - base))
    if b.toNat < 0x80 then some (.inr (i + 1, r))
    else decode_groups shift buffer base turns (i + 1) r

/-- `none` where a byte is read that is not there. -/
def pbcV_decode (undef : ℕ → ℕ → ℕ) (buffer : ℕ → Option UInt8) : Option (ℕ × Longlong) := do
  let b ← buffer 0
  if b.toNat < 0x80 then some (1, ⟨UInt32.ofNat b.toNat, 0⟩)
  else
    match ← decode_groups (· <<< ·) buffer 0 3 1 (b.toNat &&& 0x7f) with
    | .inr (len, r) => some (len, ⟨UInt32.ofNat r, 0⟩)
    | .inl r =>
      match ← decode_groups (shl undef) buffer 4 6 4 0 with
      | .inr (len, lr) =>
        some (len, ⟨UInt32.ofNat (r ||| (lr &&& 0xf) <<< 28), UInt32.ofNat (lr >>> 4)⟩)
      | .inl _ => some (10, ⟨0, 0⟩)

/-! ## Writing -/

variable {n : ℕ} {l : List UInt8} {undef : ℕ → ℕ → ℕ} {buffer : ℕ → Option UInt8}

theorem continued_eq (n : ℕ) : continued n = UInt8.ofNat (n % 128 + 128) := by
  have hbyte : ∀ k < 256, k ||| 128 = k % 128 + 128 := by decide +kernel
  refine UInt8.toNat_inj.mp ?_
  rw [continued, UInt8.toNat_ofNat', UInt8.toNat_ofNat', Nat.or_mod_two_pow,
    hbyte _ (Nat.mod_lt _ (by decide))]
  omega

theorem encode_groups_eq {turns : ℕ} (hle : 128 ≤ n) (hlt : n < 128 ^ (turns + 1)) :
    encode_groups turns n = varint n := by
  induction turns generalizing n with
  | zero => omega
  | succ turns ih =>
    have hdiv : n >>> 7 = n / 128 := Nat.shiftRight_eq_div_pow n 7
    have hrest : n / 128 < 128 ^ (turns + 1) :=
      Nat.div_lt_of_lt_mul (by rw [pow_succ'] at hlt; exact hlt)
    rw [encode_groups, continued_eq, varint_of_le hle, hdiv]
    split
    · rename_i hmore
      rw [ih hmore hrest]
    · rename_i hlast
      rw [varint_of_lt (by omega)]

theorem pbcV_encode32_eq (number : UInt32) : pbcV_encode32 number = varint number.toNat := by
  have hlt := number.toNat_lt
  have h7 : number.toNat >>> 7 = number.toNat / 128 := Nat.shiftRight_eq_div_pow _ 7
  have h14 : number.toNat >>> 14 = number.toNat / 128 / 128 := by
    rw [Nat.shiftRight_eq_div_pow, Nat.div_div_eq_div_mul]
  have h21 : number.toNat >>> 21 = number.toNat / 128 / 128 / 128 := by
    rw [Nat.shiftRight_eq_div_pow, Nat.div_div_eq_div_mul, Nat.div_div_eq_div_mul]
  have h28 : number.toNat >>> 28 = number.toNat / 128 / 128 / 128 / 128 := by
    rw [Nat.shiftRight_eq_div_pow, Nat.div_div_eq_div_mul, Nat.div_div_eq_div_mul,
      Nat.div_div_eq_div_mul]
  simp only [pbcV_encode32, continued_eq, h7, h14, h21, h28]
  split
  · rw [varint_of_lt ‹_›]
  · rw [varint_of_le (by omega)]
    split
    · rw [varint_of_lt (by omega)]
    · rw [varint_of_le (by omega)]
      split
      · rw [varint_of_lt (by omega)]
      · rw [varint_of_le (by omega)]
        split
        · rw [varint_of_lt (by omega)]
        · rw [varint_of_le (by omega), varint_of_lt (by omega)]

/-- What is written is the number to the base 128. -/
theorem pbcV_encode_eq (number : UInt64) : pbcV_encode number = varint number.toNat := by
  have hlt := number.toNat_lt
  have hand : number.toNat &&& 0xffffffff = number.toNat % 2 ^ 32 :=
    Nat.and_two_pow_sub_one_eq_mod _ 32
  rw [pbcV_encode, hand]
  split
  · rename_i hword
    rw [pbcV_encode32_eq, UInt64.toNat_toUInt32, hword]
  · exact encode_groups_eq (by omega) (by omega)

/-! ## Reading -/

/-- The bytes stand at a place of the buffer. -/
def Stands (buffer : ℕ → Option UInt8) (i : ℕ) (l : List UInt8) : Prop :=
  ∀ (j : ℕ) (h : j < l.length), buffer (i + j) = some l[j]

theorem Stands.head {i : ℕ} {b : UInt8} (h : Stands buffer i (b :: l)) : buffer i = some b :=
  h 0 (by simp)

theorem Stands.tail {i : ℕ} {b : UInt8} (h : Stands buffer i (b :: l)) :
    Stands buffer (i + 1) l := fun j hj => by
  have hnext := h (j + 1) (by simpa using hj)
  rw [List.getElem_cons_succ] at hnext
  rw [← hnext, Nat.add_right_comm, Nat.add_assoc]

theorem Stands.drop {i k : ℕ} (h : Stands buffer i l) (hk : k ≤ l.length) :
    Stands buffer (i + k) (l.drop k) := fun j hj => by
  rw [List.length_drop] at hj
  rw [List.getElem_drop, Nat.add_assoc]
  exact h (k + j) (by omega)

theorem stands_of_append (l m : List UInt8) : Stands (fun i => (l ++ m)[i]?) 0 l := fun j hj => by
  show (l ++ m)[0 + j]? = _
  rw [Nat.zero_add, List.getElem?_append_left hj, List.getElem?_eq_getElem hj]

theorem or_shift {r k : ℕ} (hr : r < 2 ^ k) (g : ℕ) : r ||| g * 2 ^ k = r + 2 ^ k * g := by
  rw [Nat.or_comm, Nat.mul_comm, ← Nat.two_pow_add_eq_or_of_lt hr, Nat.add_comm]

/-- A loop over the groups of a number, of which it reads so many as it has turns. -/
theorem decode_groups_eq {shift : ℕ → ℕ → ℕ} {base turns i r : ℕ} (hbase : base ≤ i)
    (hl : Stands buffer i l) (ht : Terminated l) (hr : r < 2 ^ (7 * (i - base)))
    (hshift : ∀ (j : ℕ) (h : j < l.length), j < turns →
      shift (l[j].toNat % 128) (7 * (i + j - base)) =
        l[j].toNat % 128 * 2 ^ (7 * (i + j - base))) :
    decode_groups shift buffer base turns i r = some (if l.length ≤ turns then
      .inr (i + l.length, r + 2 ^ (7 * (i - base)) * ofVarint l)
      else .inl (r + 2 ^ (7 * (i - base)) * ofVarint (l.take turns))) := by
  induction turns generalizing i r l with
  | zero =>
    have hpos : ¬l.length ≤ 0 := by
      cases l with
      | nil => exact ht.elim
      | cons => simp
    rw [decode_groups, if_neg hpos]
    simp [ofVarint]
  | succ turns ih =>
    cases l with
    | nil => exact ht.elim
    | cons b l =>
      have hg : b.toNat &&& 0x7f = b.toNat % 128 := Nat.and_two_pow_sub_one_eq_mod _ 7
      have hfirst := hshift 0 (by simp) (by omega)
      rw [List.getElem_cons_zero, Nat.add_zero] at hfirst
      have hor := or_shift hr (b.toNat % 128)
      simp only [decode_groups, hl.head, Option.bind_eq_bind, Option.bind_some, hg, hfirst, hor]
      by_cases hb : b.toNat < 128
      · -- the last byte of the number
        have hnil : l = [] := by
          by_contra hne
          have := ((terminated_cons hne).mp ht).1
          omega
        subst hnil
        simp [hb, ofVarint]
      · have hne : l ≠ [] := by
          rintro rfl
          exact hb ht
        have hpow : 2 ^ (7 * (i + 1 - base)) = 2 ^ (7 * (i - base)) * 128 := by
          rw [show 7 * (i + 1 - base) = 7 * (i - base) + 7 by omega, pow_add]
          norm_num
        have hmod : b.toNat % 128 < 128 := Nat.mod_lt _ (by decide)
        rw [if_neg hb, ih (by omega) hl.tail ((terminated_cons hne).mp ht).2 (by
          rw [hpow]
          nlinarith [Nat.pos_of_ne_zero (pow_ne_zero (7 * (i - base)) (two_ne_zero (α := ℕ)))])
          fun j hj hlt => by
            have hnext := hshift (j + 1) (by simpa using hj) (by omega)
            rwa [List.getElem_cons_succ, ← Nat.add_assoc, Nat.add_right_comm] at hnext]
        simp only [List.length_cons, Nat.add_le_add_iff_right, List.take_succ_cons, ofVarint, hpow]
        congr 1
        split
        · congr 2
          · omega
          · ring
        · congr 1
          ring

theorem group_le (l : List UInt8) {j : ℕ} (h : j < l.length) :
    l[j].toNat % 128 * 2 ^ (7 * j) ≤ ofVarint l := by
  induction l generalizing j with
  | nil => simp at h
  | cons b l ih =>
    cases j with
    | zero => simp [ofVarint]
    | succ j =>
      have hj : j < l.length := by simpa using h
      have hle := ih hj
      have hpow : 2 ^ (7 * (j + 1)) = 2 ^ (7 * j) * 128 := by
        rw [Nat.mul_succ, pow_add]
        norm_num
      have hmul : l[j].toNat % 128 * (2 ^ (7 * j) * 128) =
          128 * (l[j].toNat % 128 * 2 ^ (7 * j)) := by ring
      rw [List.getElem_cons_succ, ofVarint, hpow, hmul]
      omega

theorem Longlong.ofNat_of_lt (h : n < 2 ^ 32) : Longlong.ofNat n = ⟨UInt32.ofNat n, 0⟩ := by
  rw [Longlong.ofNat, Nat.div_eq_of_lt h]
  rfl

/-- The words of a number that was put together from its lowest 28 bits and the others. -/
theorem Longlong.ofNat_split {r lr : ℕ} (hr : r < 2 ^ 28) :
    (⟨UInt32.ofNat (r ||| (lr &&& 0xf) <<< 28), UInt32.ofNat (lr >>> 4)⟩ : Longlong) =
      .ofNat (r + 2 ^ 28 * lr) := by
  have hand : lr &&& 0xf = lr % 16 := Nat.and_two_pow_sub_one_eq_mod _ 4
  rw [hand, Nat.shiftLeft_eq, or_shift hr, Nat.shiftRight_eq_div_pow, Longlong.ofNat]
  congr 1
  · refine UInt32.toNat_inj.mp ?_
    rw [UInt32.toNat_ofNat', UInt32.toNat_ofNat']
    omega
  · rw [show (r + 2 ^ 28 * lr) / 2 ^ 32 = lr / 2 ^ 4 by omega]

/-- A number below `2 ^ 59` is read, whatever stands behind it. -/
theorem pbcV_decode_eq (undef : ℕ → ℕ → ℕ) (hl : Stands buffer 0 l) (ht : Terminated l)
    (hlen : l.length ≤ 9) (hlt : ofVarint l < 2 ^ 59) :
    pbcV_decode undef buffer = some (l.length, .ofNat (ofVarint l)) := by
  cases l with
  | nil => exact ht.elim
  | cons b l =>
    have hg : b.toNat &&& 0x7f = b.toNat % 128 := Nat.and_two_pow_sub_one_eq_mod _ 7
    have hmod : b.toNat % 128 < 2 ^ 7 := Nat.mod_lt _ (by decide)
    simp only [pbcV_decode, hl.head, Option.bind_eq_bind, Option.bind_some, hg]
    -- one byte, or the groups behind the first
    by_cases hb : b.toNat < 128
    · have hnil : l = [] := by
        by_contra hne
        have := ((terminated_cons hne).mp ht).1
        omega
      subst hnil
      have hself : ofVarint [b] = b.toNat := by
        simp only [ofVarint]
        omega
      rw [if_pos hb, hself, Longlong.ofNat_of_lt (by omega), List.length_singleton]
    · have hne : l ≠ [] := by
        rintro rfl
        exact hb ht
      have htail := ((terminated_cons hne).mp ht).2
      rw [if_neg hb, decode_groups_eq (by omega) hl.tail htail hmod
        fun j hj _ => Nat.shiftLeft_eq _ _]
      by_cases hshort : l.length ≤ 3
      · -- the number ends within the lower 28 bits
        have hsmall : ofVarint (b :: l) < 2 ^ 28 :=
          lt_of_lt_of_le (ofVarint_lt _) (by
            calc 128 ^ (b :: l).length ≤ 128 ^ 4 :=
                  Nat.pow_le_pow_right (by decide) (by simp; omega)
              _ = 2 ^ 28 := by norm_num)
        rw [if_pos hshort, Option.bind_some, Longlong.ofNat_of_lt (by omega), List.length_cons,
          Nat.add_comm 1]
        rfl
      · have hsplit : l = l.take 3 ++ l.drop 3 := (List.take_append_drop 3 l).symm
        have hthree : (l.take 3).length = 3 := by
          rw [List.length_take]
          omega
        have hlength : (l.drop 3).length ≤ 5 := by
          rw [List.length_drop]
          rw [List.length_cons] at hlen
          omega
        have hvalue : ofVarint (b :: l) =
            b.toNat % 128 + 2 ^ 7 * ofVarint (l.take 3) + 2 ^ 28 * ofVarint (l.drop 3) := by
          conv_lhs => rw [ofVarint, hsplit, ofVarint_append, hthree]
          ring
        have hlow : b.toNat % 128 + 2 ^ 7 * ofVarint (l.take 3) < 2 ^ 28 := by
          have := ofVarint_lt (l.take 3)
          rw [hthree] at this
          omega
        have hshift : ∀ (j : ℕ) (h : j < (l.drop 3).length), j < 6 →
            shl undef ((l.drop 3)[j].toNat % 128) (7 * (4 + j - 4)) =
              (l.drop 3)[j].toNat % 128 * 2 ^ (7 * (4 + j - 4)) := fun j hj _ => by
          have hle := group_le (l.drop 3) hj
          rw [Nat.add_sub_cancel_left, shl, Nat.shiftLeft_eq, if_pos ⟨by omega, by omega⟩]
        rw [if_neg hshort, Option.bind_some]
        simp only
        rw [decode_groups_eq (l := l.drop 3) (by omega) (hl.tail.drop (by omega))
          (htail.drop (by omega)) (by norm_num) hshift, if_pos (by omega), Option.bind_some]
        simp only [Nat.sub_self, Nat.mul_zero, pow_zero, Nat.one_mul, Nat.zero_add]
        rw [Longlong.ofNat_split hlow, ← hvalue, List.length_drop, List.length_cons,
          show 4 + (l.length - 3) = l.length + 1 by omega]

/-- With 0 for what C leaves open the upper bits do not reach what a larger number has. -/
theorem shl_zero_lt (g k : ℕ) : shl (fun _ _ => 0) g k < 2 ^ 31 := by
  unfold shl
  split
  · rename_i h
    exact h.2
  · norm_num

theorem decode_groups_lt {base turns i r len r' : ℕ} (hr : r < 2 ^ 31)
    (h : decode_groups (shl fun _ _ => 0) buffer base turns i r = some (.inr (len, r'))) :
    r' < 2 ^ 31 := by
  induction turns generalizing i r with
  | zero => simp [decode_groups] at h
  | succ turns ih =>
    cases hb : buffer i with
    | none => simp [decode_groups, hb] at h
    | some b =>
      have hor := Nat.or_lt_two_pow hr (shl_zero_lt (b.toNat &&& 0x7f) (7 * (i - base)))
      simp only [decode_groups, hb, Option.bind_eq_bind, Option.bind_some] at h
      split at h
      · cases h
        exact hor
      · exact ih hor h

theorem pbcV_decode_hi {len : ℕ} {v : Longlong}
    (h : pbcV_decode (fun _ _ => 0) buffer = some (len, v)) : v.hi.toNat < 2 ^ 27 := by
  cases hb : buffer 0 with
  | none => simp [pbcV_decode, hb] at h
  | some b =>
    simp only [pbcV_decode, hb, Option.bind_eq_bind, Option.bind_some] at h
    split at h
    · cases h
      exact (by decide : (0 : UInt32).toNat < 2 ^ 27)
    · cases hlow : decode_groups (· <<< ·) buffer 0 3 1 (b.toNat &&& 0x7f) with
      | none => simp [hlow] at h
      | some low =>
        cases low with
        | inr read =>
          simp only [hlow, Option.bind_some] at h
          cases h
          exact (by decide : (0 : UInt32).toNat < 2 ^ 27)
        | inl r =>
          cases hhigh : decode_groups (shl fun _ _ => 0) buffer 4 6 4 0 with
          | none => simp [hlow, hhigh] at h
          | some high =>
            cases high with
            | inl =>
              simp only [hlow, hhigh, Option.bind_some] at h
              cases h
              decide
            | inr read =>
              have hlt := decode_groups_lt (by norm_num) hhigh
              simp only [hlow, hhigh, Option.bind_some] at h
              cases h
              rw [UInt32.toNat_ofNat', Nat.shiftRight_eq_div_pow]
              omega

/-- A number that was written is read again, for sure just when it is below `2 ^ 59`. -/
theorem pbcV_decode_encode_iff (number : UInt64) :
    (∀ undef rest, pbcV_decode undef (fun i => (pbcV_encode number ++ rest)[i]?) =
      some ((pbcV_encode number).length, .ofNat number.toNat)) ↔ number.toNat < 2 ^ 59 := by
  have hbytes := pbcV_encode_eq number
  constructor
  · intro h
    by_contra hge
    have hhi := pbcV_decode_hi (h (fun _ _ => 0) [])
    have hlt := number.toNat_lt
    rw [Longlong.ofNat, UInt32.toNat_ofNat'] at hhi
    omega
  · intro h undef rest
    have hread := pbcV_decode_eq undef (stands_of_append (pbcV_encode number) rest)
      (hbytes ▸ terminated_varint _) (by rw [hbytes]; exact length_varint_le (k := 8) (by omega))
      (by rw [hbytes, ofVarint_varint]; exact h)
    rwa [hbytes, ofVarint_varint, ← hbytes] at hread

end DnServer.Protobuf
