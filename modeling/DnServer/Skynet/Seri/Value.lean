import DnServer.Lib.LittleEndian
import DnServer.Lib.Numeral
import DnServer.Lib.Outcome

/-!
# Lua values

What `lua-seri.c` packs and unpacks, and the parts of Lua it calls. A number is
the `double` that the Lua of this server has, given by its bits. A table is its
entries in the order of `lua_next`, and the border that `lua_rawlen` gives for
it, which the entries alone do not settle.
-/

namespace DnServer.Skynet

open DnServer.Lib

/-! ## Numbers -/

/-- A `double`, by its bits. -/
abbrev Double := BitVec 64

namespace Double

def exponent (d : Double) : ℕ := d.toNat / 2 ^ 52 % 2048

def mantissa (d : Double) : ℕ := d.toNat % 2 ^ 52

def negative (d : Double) : Bool := 2 ^ 63 ≤ d.toNat

def isNaN (d : Double) : Bool := d.exponent = 2047 && d.mantissa ≠ 0

def isZero (d : Double) : Bool := d.exponent = 0 && d.mantissa = 0

/-- `-0`. -/
def negZero : Double := BitVec.ofNat 64 (2 ^ 63)

/-- The `double` of an integer that has one. -/
def ofInt (v : ℤ) : Double :=
  if v = 0 then 0
  else
    BitVec.ofNat 64 ((if v < 0 then 2 ^ 63 else 0) + (1023 + v.natAbs.log2) * 2 ^ 52 +
      (v.natAbs * 2 ^ (52 - v.natAbs.log2) - 2 ^ 52))

/-- Rounded towards zero. -/
def trunc (d : Double) : ℤ :=
  if d.exponent < 1023 then 0
  else
    let a : ℕ := (2 ^ 52 + d.mantissa) * 2 ^ (d.exponent - 1023) / 2 ^ 52
    if d.negative then -a else a

/-- The conversion to `int`, with what the processor gives outside its range. -/
def toInt (d : Double) : ℤ :=
  if -2147483648 ≤ d.trunc ∧ d.trunc < 2147483648 then d.trunc else -2147483648

/-- `(int32_t)lua_tointeger`, through the 64 bits of `lua_Integer`. -/
def int32 (d : Double) : ℤ :=
  if -2 ^ 63 ≤ d.trunc ∧ d.trunc < 2 ^ 63 then signed (word d.trunc) else 0

/-- `==` of C. -/
protected def eq (a b : Double) : Bool :=
  !a.isNaN && !b.isNaN && (a = b || a.isZero && b.isZero)

/-! ### Integers among the numbers -/

/-- The parts of the number of an integer other than zero. -/
theorem ofInt_parts {v : ℤ} (hv : v ≠ 0) (hlt : v.natAbs < 2 ^ 53) :
    (ofInt v).negative = decide (v < 0) ∧ (ofInt v).exponent = 1023 + v.natAbs.log2 ∧
      2 ^ 52 + (ofInt v).mantissa = v.natAbs * 2 ^ (52 - v.natAbs.log2) := by
  have ha : v.natAbs ≠ 0 := by omega
  have he : v.natAbs.log2 < 53 := (Nat.log2_lt ha).2 hlt
  have hpow : 2 ^ v.natAbs.log2 * 2 ^ (52 - v.natAbs.log2) = 2 ^ 52 := by
    rw [← pow_add]
    congr 1
    omega
  have hlow : 2 ^ 52 ≤ v.natAbs * 2 ^ (52 - v.natAbs.log2) := by
    rw [← hpow]
    exact Nat.mul_le_mul_right _ (Nat.log2_self_le ha)
  have hhigh : v.natAbs * 2 ^ (52 - v.natAbs.log2) < 2 ^ 53 := by
    have hself : v.natAbs < 2 ^ v.natAbs.log2 * 2 := by
      rw [← pow_succ]
      exact Nat.lt_log2_self
    calc v.natAbs * 2 ^ (52 - v.natAbs.log2)
        < 2 ^ v.natAbs.log2 * 2 * 2 ^ (52 - v.natAbs.log2) :=
          Nat.mul_lt_mul_of_pos_right hself (by positivity)
      _ = 2 ^ 53 := by rw [mul_right_comm, hpow]; rfl
  unfold ofInt negative exponent mantissa
  rw [if_neg hv]
  generalize v.natAbs * 2 ^ (52 - v.natAbs.log2) = q at hlow hhigh
  generalize v.natAbs.log2 = e at he
  simp only [BitVec.toNat_ofNat]
  by_cases hneg : v < 0
  · simp only [if_pos hneg]
    refine ⟨?_, ?_, ?_⟩
    · simp only [hneg, decide_true, decide_eq_true_eq]
      omega
    · omega
    · omega
  · simp only [if_neg hneg]
    refine ⟨?_, ?_, ?_⟩
    · simp only [hneg, decide_false, decide_eq_false_iff_not]
      omega
    · omega
    · omega

/-- An integer that has a number is what the number is rounded to. -/
theorem trunc_ofInt {v : ℤ} (hlt : v.natAbs < 2 ^ 53) : (ofInt v).trunc = v := by
  by_cases hv : v = 0
  · subst hv
    rfl
  · obtain ⟨hneg, hexp, hman⟩ := ofInt_parts hv hlt
    have he : v.natAbs.log2 < 53 := (Nat.log2_lt (by omega)).2 hlt
    have hdiv : (2 ^ 52 + (ofInt v).mantissa) * 2 ^ ((ofInt v).exponent - 1023) / 2 ^ 52 =
        v.natAbs := by
      rw [hman, hexp, Nat.add_sub_cancel_left, mul_assoc, ← pow_add]
      have hsum : 52 - v.natAbs.log2 + v.natAbs.log2 = 52 := by omega
      rw [hsum]
      exact Nat.mul_div_cancel _ (by positivity)
    rw [trunc, if_neg (by omega)]
    simp only [hdiv, hneg, decide_eq_true_eq]
    split <;> omega

theorem int32_ofInt {v : ℤ} (h : -2147483648 ≤ v) (h' : v < 2147483648) :
    (ofInt v).int32 = v := by
  have htrunc := trunc_ofInt (v := v) (by omega)
  rw [int32, htrunc, if_pos ⟨by omega, by omega⟩, signed_word h h']

theorem ofInt_inj {v w : ℤ} (hv : v.natAbs < 2 ^ 53) (hw : w.natAbs < 2 ^ 53)
    (h : ofInt v = ofInt w) : v = w := by
  rw [← trunc_ofInt hv, ← trunc_ofInt hw, h]

/-- The number of an integer is a number, and zero only for zero. -/
theorem ofInt_ordinary {v : ℤ} (hlt : v.natAbs < 2 ^ 53) :
    (ofInt v).isNaN = false ∧ ((ofInt v).isZero = true → ofInt v = 0) := by
  by_cases hv : v = 0
  · subst hv
    exact ⟨rfl, fun _ => rfl⟩
  · obtain ⟨-, hexp, -⟩ := ofInt_parts hv hlt
    have he : v.natAbs.log2 < 53 := (Nat.log2_lt (by omega)).2 hlt
    refine ⟨?_, ?_⟩
    · have hne : (ofInt v).exponent ≠ 2047 := by omega
      simp [isNaN, hne]
    · intro hzero
      have hne : (ofInt v).exponent ≠ 0 := by omega
      simp [isZero, hne] at hzero

/-- The zeros are `0` and `-0`. -/
theorem isZero_iff (d : Double) : d.isZero = true ↔ d = 0 ∨ d = negZero := by
  have hd := d.isLt
  constructor
  · intro h
    simp only [isZero, Bool.and_eq_true, decide_eq_true_eq] at h
    unfold exponent mantissa at h
    have hcases : d.toNat = 0 ∨ d.toNat = 2 ^ 63 := by omega
    rcases hcases with h0 | h1
    · exact Or.inl (BitVec.eq_of_toNat_eq h0)
    · exact Or.inr (BitVec.eq_of_toNat_eq h1)
  · rintro (rfl | rfl) <;> rfl

/-- A number other than `-0` that compares equal to an integer is its number. -/
theorem eq_ofInt {v : ℤ} {d : Double} (hlt : v.natAbs < 2 ^ 53) (hd : d ≠ negZero)
    (h : (ofInt v).eq d = true) : ofInt v = d := by
  obtain ⟨-, hzero⟩ := ofInt_ordinary hlt
  simp only [Double.eq, Bool.and_eq_true, Bool.or_eq_true, decide_eq_true_eq] at h
  rcases h.2 with heq | ⟨hv, hz⟩
  · exact heq
  · rcases (isZero_iff d).1 hz with h0 | h1
    · rw [h0, hzero hv]
    · exact absurd h1 hd

theorem eq_refl {d : Double} (h : d.isNaN = false) : d.eq d = true := by
  simp [Double.eq, h]

theorem eq_symm (a b : Double) : a.eq b = b.eq a := by
  have hdec : decide (a = b) = decide (b = a) := by simp [eq_comm]
  simp only [Double.eq, hdec]
  cases a.isNaN <;> cases b.isNaN <;> cases a.isZero <;> cases b.isZero <;> rfl

end Double

/-! ## Values -/

inductive Value
  | nil
  | boolean (b : Bool)
  | number (n : Double)
  | string (s : List UInt8)
  | userdata (p : BitVec 64)
  | table (rawlen : Fin 2147483648) (entries : List (Value × Value))
  | other (typename : String)

instance : Inhabited Value := ⟨.nil⟩

namespace Value

/-- The number of an array index. -/
def index (i : ℕ) : Value := .number (.ofInt i)

def isNil : Value → Bool
  | .nil => true
  | _ => false

/-- A key that `lua_rawset` refuses. -/
def isNaN : Value → Bool
  | .number n => n.isNaN
  | _ => false

/-- `lua_rawequal`; two tables that stand in different places are two tables. -/
def rawequal : Value → Value → Bool
  | .nil, .nil => true
  | .boolean a, .boolean b => a = b
  | .number a, .number b => a.eq b
  | .string a, .string b => a = b
  | .userdata a, .userdata b => a = b
  | _, _ => false

/-- The field `__remote` of a table that stands for a remote object. -/
def remoteKey : Value := .string (ascii "__remote")

end Value

/-- What a table holds. -/
abbrev Entries := List (Value × Value)

namespace Entries

def rawget (es : Entries) (k : Value) : Value :=
  ((es.find? fun e => e.1.rawequal k).map Prod.snd).getD .nil

def rawset (es : Entries) (k v : Value) : Entries :=
  let rest := es.filter fun e => !e.1.rawequal k
  if v.isNil then rest else rest ++ [(k, v)]

end Entries

/-- What the interpreter decides. -/
structure Lua where
  /-- There is memory for a table with an array part of this size. -/
  createtable : ℤ → Bool
  /-- The border that `lua_rawlen` gives for a new table. -/
  border : Entries → Fin 2147483648
  /-- The number that a string is converted to. -/
  tonumber : List UInt8 → Option Double
  /-- What the metatable has under a handle, `nil` where there is no remote object. -/
  remote : ℤ → Value

/-- `lua_isnumber` with the number. -/
def Lua.isnumber (lua : Lua) : Value → Option Double
  | .number n => some n
  | .string s => lua.tonumber s
  | _ => none

end DnServer.Skynet
