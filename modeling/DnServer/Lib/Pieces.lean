import Mathlib

/-!
# Data in pieces

A sequence that is kept as a list of pieces: a stretch of it may lie in one piece or run over
several.
-/

namespace DnServer.Lib.Pieces

variable {α : Type*} {S T : List (List α)} {s x : List α} {k n : ℕ}

/-- The `n` elements behind the first `k`, when they lie in one piece. -/
def piece (n : ℕ) : ℕ → List (List α) → Option (List α)
  | _, [] => none
  | k, s :: S =>
    if k < s.length then if n ≤ s.length - k then some ((s.drop k).take n) else none
    else piece n (k - s.length) S

theorem piece_cons_of_lt (h : k < s.length) :
    piece n k (s :: S) = if n ≤ s.length - k then some ((s.drop k).take n) else none := if_pos h

theorem piece_cons_of_le (h : s.length ≤ k) : piece n k (s :: S) = piece n (k - s.length) S :=
  if_neg (by omega)

/-- A stretch in one piece is a stretch of the sequence. -/
theorem piece_eq (h : piece n k S = some x) :
    x = (S.flatten.drop k).take n ∧ k + n ≤ S.flatten.length := by
  induction S generalizing k with
  | nil => cases h
  | cons s S ih =>
    rw [List.flatten_cons, List.drop_append, List.length_append]
    rcases Nat.lt_or_ge k s.length with hlt | hle
    · rw [piece_cons_of_lt hlt] at h
      by_cases hn : n ≤ s.length - k
      · rw [if_pos hn] at h
        obtain rfl := Option.some.inj h
        rw [List.take_append_of_le_length (by rw [List.length_drop]; exact hn)]
        exact ⟨rfl, by omega⟩
      · rw [if_neg hn] at h
        cases h
    · rw [piece_cons_of_le hle] at h
      obtain ⟨hx, hlen⟩ := ih h
      rw [List.drop_eq_nil_of_le hle, List.nil_append]
      exact ⟨hx, by omega⟩

end DnServer.Lib.Pieces
