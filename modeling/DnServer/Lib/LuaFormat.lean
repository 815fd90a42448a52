import DnServer.Lib.Numeral

/-!
# `string.format` of Lua 5.2

The conversions `%d`, `%s` and `%%`. A conversion without an argument of its
type, and a percent sign that starts none, raise. A string of fewer than 100
bytes goes through `sprintf`, which stops at a NUL; a longer one is copied.
-/

namespace DnServer.Lib

namespace LuaFormat

inductive Arg
  | int (n : ℤ)
  | str (s : Bytes)
  deriving DecidableEq, Repr

/-- What `%s` writes. -/
def ofString (s : Bytes) : Bytes :=
  if s.length < 100 then s.takeWhile (· ≠ 0) else s

/-- `string.format`; `none` when it raises. -/
def format : Bytes → List Arg → Option Bytes
  | [], _ => some []
  | c :: l, args =>
    if c ≠ 37 then (format l args).map (c :: ·)
    else
      match l with
      | [] => none
      | d :: l =>
        if d = 37 then (format l args).map (37 :: ·)
        else if d = 100 then
          match args with
          | .int n :: args => (format l args).map (decimalInt n ++ ·)
          | _ => none
        else if d = 115 then
          match args with
          | .str s :: args => (format l args).map (ofString s ++ ·)
          | _ => none
        else none

theorem ofString_of_no_nul {s : Bytes} (h : 0 ∉ s) : ofString s = s := by
  unfold ofString
  split
  · rw [List.takeWhile_eq_self_iff]
    intro c hc
    simp only [ne_eq, decide_eq_true_eq]
    rintro rfl
    exact h hc
  · rfl

/-- A string written short was cut at a NUL. -/
theorem ofString_cut (s : Bytes) : ∃ z : Bytes, s = ofString s ++ z ∧ z.head?.getD 0 = 0 := by
  unfold ofString
  split
  · refine ⟨s.dropWhile (· ≠ 0), (List.takeWhile_append_dropWhile).symm, ?_⟩
    cases hz : s.dropWhile (· ≠ 0) with
    | nil => rfl
    | cons c z =>
      have := List.head?_dropWhile_not (fun c : UInt8 => decide (c ≠ 0)) s
      rw [hz] at this
      simpa using this
  · exact ⟨[], (List.append_nil s).symm, rfl⟩

@[simp]
theorem format_nil (args : List Arg) : format [] args = some [] := rfl

theorem format_cons {c : UInt8} (h : c ≠ 37) (l : Bytes) (args : List Arg) :
    format (c :: l) args = (format l args).map (c :: ·) := by
  rw [format.eq_def]
  exact if_pos h

theorem format_percent (l : Bytes) (args : List Arg) :
    format (37 :: 37 :: l) args = (format l args).map (37 :: ·) := rfl

/-- A percent sign that starts no conversion raises. -/
theorem format_lone {l : Bytes} (h : l.head? ≠ some 37) : format (37 :: l) [] = none := by
  cases l with
  | nil => rfl
  | cons d l =>
    have hd : d ≠ 37 := by simpa using h
    rw [format.eq_def]
    simp only [ne_eq, not_true_eq_false, if_false, if_neg hd]
    by_cases h1 : d = 100
    · rw [if_pos h1]
    · rw [if_neg h1, ite_self]

/-- Text without percent signs is copied. -/
theorem format_append {a : Bytes} (h : 37 ∉ a) (b : Bytes) (args : List Arg) :
    format (a ++ b) args = (format b args).map (a ++ ·) := by
  induction a with
  | nil => simp
  | cons c a ih =>
    rw [List.mem_cons, not_or] at h
    rw [List.cons_append, format_cons (Ne.symm h.1), ih h.2, Option.map_map]
    rfl

theorem format_int (n : ℤ) (l : Bytes) (args : List Arg) :
    format (37 :: 100 :: l) (.int n :: args) = (format l args).map (decimalInt n ++ ·) := rfl

theorem format_str (s l : Bytes) (args : List Arg) :
    format (37 :: 115 :: l) (.str s :: args) = (format l args).map (ofString s ++ ·) := rfl

end LuaFormat

end DnServer.Lib
