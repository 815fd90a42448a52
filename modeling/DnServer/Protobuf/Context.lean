import DnServer.Protobuf.Varint

/-!
# A message taken apart

What `context.c` makes of the bytes of a message that came in: one atom for each field, with the
key, and the value or the place of the bytes. The bytes that are accepted are those of a sequence
of whole fields, and nothing outside of the message is read: unless a field says that it has
nearly `2 ^ 32` bytes. Then the sum that is compared with what there is has gone round.
-/

namespace DnServer.Protobuf

open DnServer.Lib

@[match_pattern] abbrev WT_VARINT : ℕ := 0

@[match_pattern] abbrev WT_BIT64 : ℕ := 1

@[match_pattern] abbrev WT_LEND : ℕ := 2

@[match_pattern] abbrev WT_BIT32 : ℕ := 5

/-- `struct atom`. The union is two words: of a number, or the ends of a slice. -/
structure Atom where
  wire_id : UInt32
  v : Longlong
  deriving DecidableEq, Repr

section

variable (undef : ℕ → ℕ → ℕ) (junk : ℕ → ℕ → UInt8) (data : List UInt8)

/-- What is read from: the buffer where ten bytes of it are left, else `temp`, of which only so
many bytes are set as are left; `junk` is what was in the others. -/
def peek (pos cap i : ℕ) : Option UInt8 :=
  if 10 ≤ cap ∨ i < cap then data[pos + i]? else some (junk pos i)

/-- `buffer[0] | buffer[1] << 8 | buffer[2] << 16 | buffer[3] << 24`. -/
def word (pos : ℕ) : Option UInt32 := do
  let b₀ ← data[pos]?
  let b₁ ← data[pos + 1]?
  let b₂ ← data[pos + 2]?
  let b₃ ← data[pos + 3]?
  pure (UInt32.ofNat
    (b₀.toNat ||| b₁.toNat <<< 8 ||| b₂.toNat <<< 16 ||| b₃.toNat <<< 24))

/-- The value of an atom behind its key; the outer `none` is a byte read outside of the message,
the inner one the answer `NULL`. A slice begins and ends at `int`s. -/
def value_decode (wire_id : UInt32) (pos cap : ℕ) : Option (Option (Atom × ℕ)) :=
  match wire_id.toNat &&& 7 with
  | WT_VARINT => do
    let (len, v) ← pbcV_decode undef (peek junk data pos cap)
    if cap < 10 ∧ cap < len then pure none
    else pure (some (⟨wire_id, v⟩, pos + len))
  | WT_BIT64 =>
    if cap < 8 then some none
    else do
      let low ← word data pos
      let hi ← word data (pos + 4)
      pure (some (⟨wire_id, low, hi⟩, pos + 8))
  | WT_LEND => do
    let (len, r) ← pbcV_decode undef (peek junk data pos cap)
    -- the sum is one of `uint32_t`; where `temp` is read nothing else compares `len`
    if cap < (len + r.low.toNat) % 2 ^ 32 ∨ r.hi ≠ 0 then pure none
    else
      pure (some (⟨wire_id, UInt32.ofNat (pos + len), UInt32.ofNat (pos + len + r.low.toNat)⟩,
        pos + len + r.low.toNat))
  | WT_BIT32 =>
    if cap < 4 then some none
    else do
      let low ← word data pos
      pure (some (⟨wire_id, low, 0⟩, pos + 4))
  | _ => some none

def wiretype_decode (pos cap : ℕ) : Option (Option (Atom × ℕ)) := do
  let (len, r) ← pbcV_decode undef (peek junk data pos cap)
  if r.hi ≠ 0 ∨ cap < 10 ∧ cap < len then pure none
  else value_decode undef junk data r.low (pos + len) (cap - len)

/-- `size -= next - (char *)buffer`. -/
def left (size pos next : ℕ) : ℕ := (((size : ℤ) - (next - pos)) % 2 ^ 32).toNat

/-- The loops of `_pbcC_open`; the error is the number of the field, as `-i` is. -/
def open_fields : ℕ → ℕ → ℕ → ℕ → Option (Except ℕ (List Atom))
  | 0, _, _, _ => some (.ok [])
  | turns + 1, i, pos, size =>
    if size = 0 then some (.ok [])
    else do
      match ← wiretype_decode undef junk data pos size with
      | none => pure (.error i)
      | some (a, next) =>
        match ← open_fields turns (i + 1) next (left size pos next) with
        | .error i => pure (.error i)
        | .ok atoms => pure (.ok (a :: atoms))

/-- `_pbcC_open`: a field takes a byte at least. -/
def pbcC_open : Option (Except ℕ (List Atom)) :=
  open_fields undef junk data data.length 0 0 data.length

end

/-! ## Numbers in a message -/

variable {undef : ℕ → ℕ → ℕ} {junk : ℕ → ℕ → UInt8} {data l l' : List UInt8}
  {buffer buffer' : ℕ → Option UInt8}

/-- All that `_pbcV_decode` takes for a number: up to its last byte, or ten bytes without one. -/
def Number (l : List UInt8) : Prop :=
  Terminated l ∧ l.length ≤ 10 ∨ l.length = 10 ∧ ∀ b ∈ l, 128 ≤ b.toNat

/-- What `_pbcV_decode` reads in the bytes. -/
def value (undef : ℕ → ℕ → ℕ) (l : List UInt8) : Longlong :=
  ((pbcV_decode undef fun i => l[i]?).map Prod.snd).getD ⟨0, 0⟩

/-- Where a loop over the groups ends, by what stands in the buffer. -/
inductive Ends (buffer : ℕ → Option UInt8) (shift : ℕ → ℕ → ℕ) (base turns i r : ℕ) : Prop
  | ended (l : List UInt8) (r' : ℕ) : Stands buffer i l → Terminated l → l.length ≤ turns →
      (∀ buffer', Stands buffer' i l →
        decode_groups shift buffer' base turns i r = some (.inr (i + l.length, r'))) →
      Ends buffer shift base turns i r
  | goes_on (l : List UInt8) (r' : ℕ) : Stands buffer i l → l.length = turns →
      (∀ b ∈ l, 128 ≤ b.toNat) →
      (∀ buffer', Stands buffer' i l →
        decode_groups shift buffer' base turns i r = some (.inl r')) →
      Ends buffer shift base turns i r
  | outside (l : List UInt8) : Stands buffer i l → l.length < turns →
      (∀ b ∈ l, 128 ≤ b.toNat) → buffer (i + l.length) = none →
      decode_groups shift buffer base turns i r = none → Ends buffer shift base turns i r

theorem Stands.cons {i : ℕ} {b : UInt8} (hb : buffer i = some b) (h : Stands buffer (i + 1) l) :
    Stands buffer i (b :: l) := fun j hj => by
  cases j with
  | zero => exact hb
  | succ j =>
    have hnext := h j (by simpa using hj)
    rwa [Nat.add_assoc, Nat.add_comm 1] at hnext

theorem stands_nil (buffer : ℕ → Option UInt8) (i : ℕ) : Stands buffer i [] :=
  fun _ h => absurd h (Nat.not_lt_zero _)

theorem ends (buffer : ℕ → Option UInt8) (shift : ℕ → ℕ → ℕ) (base turns i r : ℕ) :
    Ends buffer shift base turns i r := by
  induction turns generalizing i r with
  | zero => exact .goes_on [] r (stands_nil _ _) rfl (by simp) fun _ _ => rfl
  | succ turns ih =>
    cases hb : buffer i with
    | none =>
      exact .outside [] (stands_nil _ _) (Nat.succ_pos _) (by simp) (by simpa using hb)
        (by simp [decode_groups, hb])
    | some b =>
      have hstep : ∀ buffer' : ℕ → Option UInt8, buffer' i = some b →
          decode_groups shift buffer' base (turns + 1) i r =
            if b.toNat < 0x80 then
              some (.inr (i + 1, r ||| shift (b.toNat &&& 0x7f) (7 * (i - base))))
            else decode_groups shift buffer' base turns (i + 1)
              (r ||| shift (b.toNat &&& 0x7f) (7 * (i - base))) := fun buffer' hb' => by
        simp [decode_groups, hb']
      by_cases hlast : b.toNat < 0x80
      · exact .ended [b] _ (.cons hb (stands_nil _ _)) hlast (by simp) fun buffer' h' => by
          rw [hstep buffer' h'.head, if_pos hlast]
          rfl
      · have hbyte : 128 ≤ b.toNat := by omega
        rcases ih (i + 1) (r ||| shift (b.toNat &&& 0x7f) (7 * (i - base))) with
          ⟨l, r', hl, ht, hlen, hsame⟩ | ⟨l, r', hl, hlen, hall, hsame⟩ |
          ⟨l, hl, hlen, hall, hnone, hstop⟩
        · have hne : l ≠ [] := by
            rintro rfl
            exact ht
          refine .ended (b :: l) r' (.cons hb hl) ((terminated_cons hne).mpr ⟨hbyte, ht⟩)
            (by simpa using hlen) fun buffer' h' => ?_
          rw [hstep buffer' h'.head, if_neg hlast, hsame buffer' h'.tail, List.length_cons,
            Nat.add_assoc, Nat.add_comm 1]
        · refine .goes_on (b :: l) r' (.cons hb hl) (by simpa using hlen)
            (List.forall_mem_cons.mpr ⟨hbyte, hall⟩) fun buffer' h' => ?_
          rw [hstep buffer' h'.head, if_neg hlast, hsame buffer' h'.tail]
        · refine .outside (b :: l) (.cons hb hl) (by simpa using hlen)
            (List.forall_mem_cons.mpr ⟨hbyte, hall⟩) ?_ ?_
          · rw [List.length_cons, ← hnone]
            congr 1
            omega
          · rw [hstep buffer hb, if_neg hlast, hstop]

theorem Stands.append {i : ℕ} {m : List UInt8} (hl : Stands buffer i l)
    (hm : Stands buffer (i + l.length) m) : Stands buffer i (l ++ m) := fun j hj => by
  by_cases h : j < l.length
  · rw [List.getElem_append_left h]
    exact hl j h
  · have hnext := hm (j - l.length) (by rw [List.length_append] at hj; omega)
    rw [List.getElem_append_right (by omega), ← hnext]
    congr 1
    omega

theorem Stands.left {i : ℕ} {m : List UInt8} (h : Stands buffer i (l ++ m)) :
    Stands buffer i l := fun j hj => by
  rw [h j (by rw [List.length_append]; omega), List.getElem_append_left hj]

theorem Stands.right {i : ℕ} {m : List UInt8} (h : Stands buffer i (l ++ m)) :
    Stands buffer (i + l.length) m := fun j hj => by
  have hnext := h (l.length + j) (by rw [List.length_append]; omega)
  rw [List.getElem_append_right (by omega)] at hnext
  simpa [Nat.add_assoc] using hnext

/-- What `_pbcV_decode` takes, or where it leaves the buffer. -/
theorem decode_cases (undef : ℕ → ℕ → ℕ) (buffer : ℕ → Option UInt8) :
    (∃ l v, Number l ∧ Stands buffer 0 l ∧
      ∀ buffer', Stands buffer' 0 l → pbcV_decode undef buffer' = some (l.length, v)) ∨
    ∃ l, Stands buffer 0 l ∧ l.length < 10 ∧ (∀ b ∈ l, 128 ≤ b.toNat) ∧ buffer l.length = none := by
  cases hb : buffer 0 with
  | none => exact .inr ⟨[], stands_nil _ _, by simp, by simp, hb⟩
  | some b =>
    by_cases hlast : b.toNat < 0x80
    · refine .inl ⟨[b], ⟨UInt32.ofNat b.toNat, 0⟩, .inl ⟨hlast, by simp⟩, .cons hb (stands_nil _ _),
        fun buffer' h' => ?_⟩
      simp only [pbcV_decode, h'.head, Option.bind_eq_bind, Option.bind_some, if_pos hlast]
      rfl
    · have hbyte : 128 ≤ b.toNat := by omega
      rcases ends buffer (· <<< ·) 0 3 1 (b.toNat &&& 0x7f) with
        ⟨l, r, hl, ht, hlen, hsame⟩ | ⟨l, r, hl, hlen, hall, hsame⟩ | ⟨l, hl, hlen, hall, hnone, -⟩
      · have hne : l ≠ [] := by
          rintro rfl
          exact ht
        refine .inl ⟨b :: l, ⟨UInt32.ofNat r, 0⟩,
          .inl ⟨(terminated_cons hne).mpr ⟨hbyte, ht⟩, by simp; omega⟩, .cons hb hl,
          fun buffer' h' => ?_⟩
        simp only [pbcV_decode, h'.head, Option.bind_eq_bind, Option.bind_some, if_neg hlast,
          hsame buffer' h'.tail, List.length_cons, Nat.add_comm 1]
      · have hfour : (b :: l).length = 4 := by rw [List.length_cons, hlen]
        have hbytes : ∀ x ∈ b :: l, 128 ≤ x.toNat := List.forall_mem_cons.mpr ⟨hbyte, hall⟩
        have hstands : Stands buffer 0 (b :: l) := .cons hb hl
        rcases ends buffer (shl undef) 4 6 4 0 with
          ⟨m, lr, hm, ht, hmlen, hmsame⟩ | ⟨m, lr, hm, hmlen, hmall, hmsame⟩ |
          ⟨m, hm, hmlen, hmall, hnone, -⟩
        · refine .inl ⟨b :: l ++ m,
            ⟨UInt32.ofNat (r ||| (lr &&& 0xf) <<< 28), UInt32.ofNat (lr >>> 4)⟩,
            .inl ⟨.append hbytes ht, by rw [List.length_append, hfour]; omega⟩,
            hstands.append (by rw [hfour]; exact hm), fun buffer' h' => ?_⟩
          have hright := h'.right
          rw [hfour] at hright
          simp only [pbcV_decode, h'.left.head, Option.bind_eq_bind, Option.bind_some,
            if_neg hlast, hsame buffer' h'.left.tail, hmsame buffer' hright, List.length_append,
            hfour]
        · refine .inl ⟨b :: l ++ m, ⟨0, 0⟩,
            .inr ⟨by rw [List.length_append, hfour, hmlen], fun x hx => ?_⟩,
            hstands.append (by rw [hfour]; exact hm), fun buffer' h' => ?_⟩
          · exact (List.mem_append.mp hx).elim (hbytes x) (hmall x)
          · have hright := h'.right
            rw [hfour] at hright
            simp only [pbcV_decode, h'.left.head, Option.bind_eq_bind, Option.bind_some,
              if_neg hlast, hsame buffer' h'.left.tail, hmsame buffer' hright, List.length_append,
              hfour, hmlen]
        · refine .inr ⟨b :: l ++ m, hstands.append (by rw [hfour]; exact hm),
            by rw [List.length_append, hfour]; omega, fun x hx => ?_, ?_⟩
          · exact (List.mem_append.mp hx).elim (hbytes x) (hmall x)
          · rw [List.length_append, hfour, hnone]
      · refine .inr ⟨b :: l, .cons hb hl, by rw [List.length_cons]; omega,
          List.forall_mem_cons.mpr ⟨hbyte, hall⟩, ?_⟩
        rw [List.length_cons, ← hnone, Nat.add_comm 1]

/-- No number is the beginning of another. -/
theorem Number.le (h : Number l) (hs : Stands buffer 0 l) (hs' : Stands buffer 0 l')
    (hall : ∀ (j : ℕ) (hj : j < l'.length), j < l.length → l.length < l'.length →
      128 ≤ l'[j].toNat) (hten : l'.length ≤ 10) : l'.length ≤ l.length := by
  by_contra hlt
  have hlt := not_le.mp hlt
  rcases h with ⟨ht, -⟩ | ⟨hlen, -⟩
  · obtain ⟨b, hb, hsmall⟩ := ht.last
    rw [Option.mem_def, List.getLast?_eq_getElem?] at hb
    obtain ⟨hj, hget⟩ := List.getElem?_eq_some_iff.mp hb
    have hsame := (hs _ hj).symm.trans (hs' _ (by omega))
    have hbyte := hall (l.length - 1) (by omega) hj hlt
    rw [← Option.some.inj hsame, hget] at hbyte
    omega
  · omega

theorem Number.before (h : Number l) {j : ℕ} (hj : j + 1 < l.length) :
    128 ≤ (l.get ⟨j, Nat.lt_of_succ_lt hj⟩).toNat := by
  rcases h with ⟨ht, -⟩ | ⟨-, hall⟩
  · exact ht.before hj
  · exact hall _ (List.getElem_mem _)

theorem Number.length_le (h : Number l) : l.length ≤ 10 := by
  rcases h with ⟨-, hlen⟩ | ⟨hlen, -⟩
  · exact hlen
  · exact hlen.le

theorem Number.unique (h : Number l) (h' : Number l') (hs : Stands buffer 0 l)
    (hs' : Stands buffer 0 l') : l = l' := by
  have hle := h.le hs hs' (fun j hj hlt hl => h'.before (by omega)) h'.length_le
  have hle' := h'.le hs' hs (fun j hj hlt hl => h.before (by omega)) h.length_le
  refine List.ext_getElem (by omega) fun j hj hj' => ?_
  exact Option.some.inj ((hs j hj).symm.trans (hs' j hj'))

/-- A number is read wherever it stands. -/
theorem Number.decode (h : Number l) (hs : Stands buffer 0 l) :
    pbcV_decode undef buffer = some (l.length, value undef l) := by
  rcases decode_cases undef buffer with ⟨m, v, hm, hms, hsame⟩ | ⟨m, hms, hlen, hall, hnone⟩
  · obtain rfl := h.unique hm hs hms
    have hself := hsame (fun i => l[i]?) (by simpa using stands_of_append l [])
    rw [hsame buffer hs, value, hself]
    rfl
  · exfalso
    have hle := h.le hs hms (fun j hj _ _ => hall _ (List.getElem_mem _)) hlen.le
    by_cases heq : m.length < l.length
    · have hsome := hs _ heq
      rw [Nat.zero_add, hnone] at hsome
      cases hsome
    · have hsame : l = m := List.ext_getElem (by omega) fun j hj hj' =>
        Option.some.inj ((hs j hj).symm.trans (hms j hj'))
      subst hsame
      rcases h with ⟨ht, -⟩ | ⟨hten, -⟩
      · obtain ⟨b, hb, hsmall⟩ := ht.last
        have := hall b (List.mem_of_getLast? hb)
        omega
      · omega

end DnServer.Protobuf
