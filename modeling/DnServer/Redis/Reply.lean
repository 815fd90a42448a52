import DnServer.Redis.Client

/-!
# Redis replies

The replies of the server as it encodes them, and what each stands for. Numbers
are sent as decimal numerals; `tonumber` reads a numeral back as a double, which
is the number itself as far as 53 bits carry.
-/

namespace DnServer.Redis

open DnServer.Lib

/-! ## Numerals -/

theorem tonumber_decimal (n : ℕ) : tonumber (decimal n) = some (double n) := by
  have hnum := numeral_decimal n
  cases hd : decimal n with
  | nil => exact absurd hd (decimal_ne_nil n)
  | cons b l =>
    have hb := mem_decimal (hd ▸ List.mem_cons_self : b ∈ decimal n)
    have hne : b ≠ 45 := by
      rintro rfl
      exact absurd hb.1 (by decide)
    rw [hd] at hnum
    unfold tonumber
    split
    · contradiction
    · rename_i h
      exact absurd (List.cons.inj h).1 hne
    · rename_i h
      exact absurd (List.cons.inj h).1 hne
    · rw [hnum]
      rfl

theorem tonumber_decimalInt (n : ℤ) : tonumber (decimalInt n) = some (double n) := by
  unfold decimalInt
  split
  · have hneg : -(n.natAbs : ℤ) = n := by omega
    cases hd : decimal n.natAbs with
    | nil => exact absurd hd (decimal_ne_nil _)
    | cons b l =>
      have hnum := numeral_decimal n.natAbs
      rw [hd] at hnum
      simp only [tonumber, hnum, Option.map_some, hneg]
  · have hpos : (n.natAbs : ℤ) = n := by omega
    rw [tonumber_decimal, hpos]

/-! ## What a double holds -/

/-- At most 53 significant bits. -/
def Exact (n : ℤ) : Prop := 2 ^ (Nat.log2 n.natAbs - 52) ∣ n.natAbs

instance (n : ℤ) : Decidable (Exact n) := inferInstanceAs (Decidable (_ ∣ _))

theorem doubleNat_eq_self_iff (n : ℕ) : doubleNat n = n ↔ 2 ^ (Nat.log2 n - 52) ∣ n := by
  simp only [doubleNat]
  generalize hu : 2 ^ (Nat.log2 n - 52) = ulp
  have hpos : 0 < ulp := by
    rw [← hu]
    positivity
  have hdiv := Nat.div_add_mod n ulp
  have hlt := Nat.mod_lt n hpos
  have hcomm : n / ulp * ulp = ulp * (n / ulp) := Nat.mul_comm _ _
  have hsucc : (n / ulp + 1) * ulp = ulp * (n / ulp) + ulp := by ring
  rw [Nat.dvd_iff_mod_eq_zero, hcomm, hsucc]
  split <;> omega

theorem double_eq_self_iff (n : ℤ) : double n = n ↔ Exact n := by
  unfold Exact
  rw [← doubleNat_eq_self_iff, double]
  constructor
  · intro h
    have habs := congrArg Int.natAbs h
    rw [Int.natAbs_mul, Int.natAbs_natCast] at habs
    rcases eq_or_ne n 0 with rfl | hn
    · rfl
    · rwa [Int.natAbs_sign_of_ne_zero hn, Nat.one_mul] at habs
  · intro h
    rw [h]
    exact Int.sign_mul_natAbs n

/-- Below 2^53 every number is a double. -/
theorem double_natCast {n : ℕ} (h : n < 2 ^ 53) : double n = n := by
  rw [double_eq_self_iff, Exact, Int.natAbs_natCast]
  have hlog : Nat.log2 n ≤ 52 := by
    rcases Nat.eq_zero_or_pos n with rfl | hn
    · decide
    · have := (Nat.log2_lt hn.ne').mpr h
      omega
  rw [Nat.sub_eq_zero_of_le hlog, pow_zero]
  exact one_dvd _

theorem tonumber_length {n : ℕ} (h : n < 2 ^ 53) : tonumber (decimal n) = some (n : ℤ) := by
  rw [tonumber_decimal, double_natCast h]

/-! ## Replies -/

/-- A reply of the server; a null element of a multi-bulk is `none`. -/
inductive Reply
  | status (s : Bytes)
  | error (s : Bytes)
  | integer (n : ℤ)
  | bulk (s : Bytes)
  | null
  | multi (l : List (Option Bytes))
  | nullMulti
  deriving DecidableEq, Repr

/-- An element of a multi-bulk. -/
def encodeElement : Option Bytes → Bytes
  | none => [36, 45, 49] ++ CRLF
  | some s => (36 :: decimal s.length) ++ CRLF ++ (s ++ CRLF)

namespace Reply

def encode : Reply → Bytes
  | status s => (43 :: s) ++ CRLF
  | error s => (45 :: s) ++ CRLF
  | integer n => (58 :: decimalInt n) ++ CRLF
  | bulk s => encodeElement (some s)
  | null => encodeElement none
  | multi l => (42 :: decimal l.length) ++ CRLF ++ (l.map encodeElement).flatten
  | nullMulti => [42, 45, 49] ++ CRLF

/-- The bytes of a bulk and the CRLF behind it are counted in an `int`. -/
def FitsBulk (s : Bytes) : Prop := s.length < 2147483646

theorem FitsBulk.exact {s : Bytes} (h : FitsBulk s) : s.length < 2 ^ 53 :=
  h.trans (by norm_num)

instance (s : Bytes) : Decidable (FitsBulk s) := inferInstanceAs (Decidable (_ < _))

/-- A line of text has no CR and no LF in it, an integer has 64 bits, a number of elements is
a double, and a bulk is not too long to be read. -/
def WellFormed : Reply → Prop
  | status s | error s => 13 ∉ s ∧ 10 ∉ s
  | integer n => -2 ^ 63 ≤ n ∧ n < 2 ^ 63
  | bulk s => FitsBulk s
  | null | nullMulti => True
  | multi l => l.length < 2 ^ 53 ∧ ∀ s, some s ∈ l → FitsBulk s

/-- No element is null. -/
def NoNullElement : Reply → Prop
  | multi l => none ∉ l
  | _ => True

/-- What the reply says: an error or a value. The elements of a multi-bulk are those that
are not null. -/
def value : Reply → Bool × Value
  | status s => (true, .string s)
  | error s => (false, .string s)
  | integer n => (true, .number n)
  | bulk s => (true, .string s)
  | null | nullMulti => (true, .nil)
  | multi l => (true, .table l.reduceOption)

/-- What the client makes of it: an integer becomes a double. -/
def decoded : Reply → Bool × Value
  | integer n => (true, .number (double n))
  | r => r.value

/-- An integer reply is a number that a double holds. -/
def IntExact : Reply → Prop
  | integer n => Exact n
  | _ => True

theorem decoded_eq_value_iff (r : Reply) : r.decoded = r.value ↔ r.IntExact := by
  cases r with
  | integer n => simp [decoded, value, IntExact, double_eq_self_iff]
  | status s => exact iff_of_true rfl trivial
  | error s => exact iff_of_true rfl trivial
  | bulk s => exact iff_of_true rfl trivial
  | null => exact iff_of_true rfl trivial
  | multi l => exact iff_of_true rfl trivial
  | nullMulti => exact iff_of_true rfl trivial

end Reply

end DnServer.Redis
