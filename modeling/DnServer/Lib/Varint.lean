import Mathlib

/-!
# Numbers to the base 128

A number as bytes of seven bits each, the lowest first; all bytes but the last have their high
bit set. What stands at the beginning of a memory is such a number, and no beginning of it is
one too.
-/

namespace DnServer.Lib

/-- The bytes of a number. -/
def varint (n : ℕ) : List UInt8 :=
  if n < 128 then [UInt8.ofNat n] else UInt8.ofNat (n % 128 + 128) :: varint (n / 128)

/-- The number that the low seven bits of some bytes are. -/
def ofVarint : List UInt8 → ℕ
  | [] => 0
  | b :: bs => b.toNat % 128 + 128 * ofVarint bs

/-- The high bit is set in all bytes but the last. -/
def Terminated : List UInt8 → Prop
  | [] => False
  | [b] => b.toNat < 128
  | b :: bs => 128 ≤ b.toNat ∧ Terminated bs

variable {n k : ℕ} {l : List UInt8}

theorem varint_of_lt (h : n < 128) : varint n = [UInt8.ofNat n] := by
  rw [varint, if_pos h]

theorem varint_of_le (h : 128 ≤ n) :
    varint n = UInt8.ofNat (n % 128 + 128) :: varint (n / 128) := by
  rw [varint, if_neg (by omega)]

theorem varint_ne_nil (n : ℕ) : varint n ≠ [] := by
  rw [varint]
  split <;> exact List.cons_ne_nil _ _

theorem terminated_cons {b : UInt8} (hne : l ≠ []) :
    Terminated (b :: l) ↔ 128 ≤ b.toNat ∧ Terminated l := by
  cases l with
  | nil => exact absurd rfl hne
  | cons => rfl

theorem terminated_varint (n : ℕ) : Terminated (varint n) := by
  fun_induction varint n with
  | case1 n h => simpa [Terminated, Nat.mod_eq_of_lt (show n < 256 by omega)] using h
  | case2 n h ih =>
    refine (terminated_cons (varint_ne_nil _)).mpr ⟨?_, ih⟩
    rw [UInt8.toNat_ofNat']
    omega

theorem ofVarint_varint (n : ℕ) : ofVarint (varint n) = n := by
  fun_induction varint n with
  | case1 n h =>
    simp only [ofVarint, UInt8.toNat_ofNat']
    omega
  | case2 n h ih =>
    simp only [ofVarint, ih, UInt8.toNat_ofNat']
    omega

/-- The bytes of a number of `7 * k` bits. -/
theorem length_varint_le (h : n < 128 ^ (k + 1)) : (varint n).length ≤ k + 1 := by
  induction k generalizing n with
  | zero => rw [varint_of_lt (by simpa using h), List.length_singleton]
  | succ k ih =>
    by_cases hlt : n < 128
    · rw [varint_of_lt hlt, List.length_singleton]
      omega
    · have hdiv : n / 128 < 128 ^ (k + 1) := Nat.div_lt_of_lt_mul (by rw [pow_succ'] at h; omega)
      rw [varint_of_le (by omega), List.length_cons]
      exact Nat.succ_le_succ (ih hdiv)

/-- The number of all but the last bytes of it and of what comes behind. -/
theorem ofVarint_append (l m : List UInt8) :
    ofVarint (l ++ m) = ofVarint l + 128 ^ l.length * ofVarint m := by
  induction l with
  | nil => simp [ofVarint]
  | cons b l ih =>
    rw [List.cons_append, ofVarint, ofVarint, ih, List.length_cons, pow_succ]
    ring

theorem Terminated.drop (h : Terminated l) (hk : k < l.length) : Terminated (l.drop k) := by
  induction k generalizing l with
  | zero => exact h
  | succ k ih =>
    cases l with
    | nil => exact h
    | cons b l =>
      have hk : k < l.length := by simpa using hk
      have hne : l ≠ [] := by
        rintro rfl
        simp at hk
      exact ih ((terminated_cons hne).mp h).2 hk

theorem Terminated.append (hall : ∀ b ∈ l, 128 ≤ b.toNat) {m : List UInt8} (hm : Terminated m) :
    Terminated (l ++ m) := by
  induction l with
  | nil => exact hm
  | cons b l ih =>
    have hne : l ++ m ≠ [] := by
      intro hnil
      rw [(List.append_eq_nil_iff.mp hnil).2] at hm
      exact hm
    exact (terminated_cons hne).mpr
      ⟨hall b List.mem_cons_self, ih fun x hx => hall x (List.mem_cons_of_mem _ hx)⟩

theorem Terminated.before (h : Terminated l) {j : ℕ} (hj : j + 1 < l.length) :
    128 ≤ (l.get ⟨j, by omega⟩).toNat := by
  induction l generalizing j with
  | nil => exact h.elim
  | cons b l ih =>
    have hne : l ≠ [] := by
      rintro rfl
      simp at hj
    have hcons := (terminated_cons hne).mp h
    cases j with
    | zero => exact hcons.1
    | succ j => exact ih hcons.2 (by simpa using hj)

theorem Terminated.last (h : Terminated l) : ∃ b ∈ l.getLast?, b.toNat < 128 := by
  induction l with
  | nil => exact h.elim
  | cons b l ih =>
    cases l with
    | nil => exact ⟨b, rfl, h⟩
    | cons c l =>
      obtain ⟨x, hx, hlt⟩ := ih h.2
      exact ⟨x, by rwa [List.getLast?_cons_cons], hlt⟩

theorem ofVarint_lt (l : List UInt8) : ofVarint l < 128 ^ l.length := by
  induction l with
  | nil => simp [ofVarint]
  | cons b l ih =>
    rw [ofVarint, List.length_cons, pow_succ']
    have hb : b.toNat % 128 < 128 := Nat.mod_lt _ (by decide)
    omega

end DnServer.Lib
