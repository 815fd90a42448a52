import DnServer.Lib.Numeral

/-!
# C strings

A string is the list of its bytes up to the terminating NUL, so it holds no NUL
itself: `strcmp` orders strings, `strstr` finds one in another.
-/

namespace DnServer.Lib

/-- The bytes before the NUL. -/
def IsCString (l : List UInt8) : Prop := 0 ∉ l

instance (l : List UInt8) : Decidable (IsCString l) := inferInstanceAs (Decidable (0 ∉ l))

/-- The string in a buffer. -/
def cstr (l : List UInt8) : List UInt8 := l.takeWhile (· ≠ 0)

/-- `strstr`: where `k` first begins in `s`. -/
def strstr (s k : List UInt8) : Option ℕ :=
  (List.range (s.length + 1)).find? fun i => k.isPrefixOf (s.drop i)

def tolower (b : UInt8) : UInt8 := if 65 ≤ b ∧ b ≤ 90 then b + 32 else b

/-- `strcasestr`. -/
def strcasestr (s k : List UInt8) : Option ℕ := strstr (s.map tolower) (k.map tolower)

/-- `strcmp`: the difference of the first bytes that differ, the NUL counted. -/
def strcmp : List UInt8 → List UInt8 → ℤ
  | [], [] => 0
  | [], y :: _ => -y.toNat
  | x :: _, [] => x.toNat
  | x :: xs, y :: ys => if x = y then strcmp xs ys else x.toNat - y.toNat

theorem IsCString.tail {x : UInt8} {l : List UInt8} (h : IsCString (x :: l)) :
    x ≠ 0 ∧ IsCString l :=
  ⟨fun hx => h (hx ▸ List.mem_cons_self), fun hmem => h (List.mem_cons_of_mem x hmem)⟩

/-- The first byte of a string that is not empty. -/
theorem IsCString.head_pos {x : UInt8} {l : List UInt8} (h : IsCString (x :: l)) :
    0 < x.toNat := by
  have hne := h.tail.1
  rw [← UInt8.toNat_inj.ne] at hne
  exact Nat.pos_of_ne_zero hne

theorem strcmp_self : ∀ l, strcmp l l = 0
  | [] => rfl
  | x :: l => by rw [strcmp, if_pos rfl, strcmp_self l]

theorem strcmp_comm : ∀ l l', strcmp l' l = -strcmp l l'
  | [], [] => rfl
  | [], y :: _ => by rw [strcmp, strcmp, neg_neg]
  | x :: _, [] => rfl
  | x :: l, y :: l' => by
    rw [strcmp, strcmp]
    by_cases h : x = y
    · rw [if_pos h, if_pos h.symm, strcmp_comm l l']
    · rw [if_neg h, if_neg (Ne.symm h), neg_sub]

theorem strcmp_eq_zero_iff : ∀ {l l' : List UInt8}, IsCString l → IsCString l' →
    (strcmp l l' = 0 ↔ l = l')
  | [], [], _, _ => by simp [strcmp]
  | [], y :: l', _, h' => by
    have hpos := h'.head_pos
    simp only [strcmp, reduceCtorEq, iff_false]
    omega
  | x :: l, [], h, _ => by
    have hpos := h.head_pos
    simp only [strcmp, reduceCtorEq, iff_false]
    omega
  | x :: l, y :: l', h, h' => by
    rw [strcmp, List.cons.injEq]
    by_cases hxy : x = y
    · rw [if_pos hxy, strcmp_eq_zero_iff h.tail.2 h'.tail.2]
      simp [hxy]
    · have hne : x.toNat ≠ y.toNat := UInt8.toNat_inj.ne.mpr hxy
      rw [if_neg hxy]
      simp only [hxy, false_and, iff_false]
      omega

theorem strcmp_trans : ∀ {a b c : List UInt8}, IsCString b →
    strcmp a b < 0 → strcmp b c < 0 → strcmp a c < 0
  | a, [], _, _, hab, _ => by
    cases a <;> simp [strcmp] at hab
    omega
  | _, y :: b, [], h, _, hbc => by
    simp only [strcmp] at hbc
    omega
  | [], y :: b, z :: c, h, _, hbc => by
    have hpos := h.head_pos
    simp only [strcmp] at hbc ⊢
    by_cases hyz : y = z
    · subst hyz
      omega
    · rw [if_neg hyz] at hbc
      omega
  | x :: a, y :: b, z :: c, h, hab, hbc => by
    rw [strcmp] at hab hbc ⊢
    by_cases hxy : x = y
    · subst hxy
      by_cases hxz : x = z
      · rw [if_pos rfl] at hab
        rw [if_pos hxz] at hbc ⊢
        exact strcmp_trans h.tail.2 hab hbc
      · rw [if_neg hxz] at hbc ⊢
        exact hbc
    · rw [if_neg hxy] at hab
      by_cases hyz : y = z
      · subst hyz
        rw [if_neg hxy]
        exact hab
      · rw [if_neg hyz] at hbc
        have hxz : x ≠ z := by
          rintro rfl
          omega
        rw [if_neg hxz]
        omega

theorem cstr_length_le (l : List UInt8) : (cstr l).length ≤ l.length :=
  (List.takeWhile_sublist _).length_le

/-- What is found stands there. -/
theorem strstr_eq_some {s k : List UInt8} {i : ℕ} (h : strstr s k = some i) : k <+: s.drop i := by
  have hfound := List.find?_some h
  exact List.isPrefixOf_iff_prefix.mp hfound

/-- A byte stands before position `n` just when the bytes before the first one are fewer. -/
theorem exists_lt_getElem?_iff {b : UInt8} : ∀ {l : List UInt8} {n : ℕ},
    (∃ i < n, l[i]? = some b) ↔ b ∈ l ∧ (l.takeWhile (· ≠ b)).length < n
  | [], n => by simp
  | x :: l, 0 => by simp
  | x :: l, n + 1 => by
    by_cases hx : x = b
    · subst hx
      refine iff_of_true ⟨0, Nat.succ_pos n, rfl⟩ ⟨List.mem_cons_self, ?_⟩
      rw [List.takeWhile_cons_of_neg (by simp)]
      exact Nat.succ_pos n
    · rw [List.takeWhile_cons_of_pos (by simpa using hx), List.length_cons, Nat.succ_lt_succ_iff,
        List.mem_cons, or_iff_right (Ne.symm hx), ← exists_lt_getElem?_iff]
      constructor
      · rintro ⟨i, hi, hb⟩
        cases i with
        | zero => exact absurd (Option.some.inj hb) hx
        | succ i => exact ⟨i, Nat.lt_of_succ_lt_succ hi, hb⟩
      · rintro ⟨i, hi, hb⟩
        exact ⟨i + 1, Nat.succ_lt_succ hi, hb⟩

end DnServer.Lib
