import Mathlib

/-!
# Tokens and where they are

Tokens are numbered in the order in which they are made, and a state says how often each of
them is found in it. `Balanced` is that each token that was made is found once: none is lost and
none is in two places. What moves a token keeps the count, and a new token adds itself.
-/

namespace DnServer.Lib

namespace Tokens

variable {count count' : ℕ → ℕ} {next : ℕ}

/-- Each token below `next` is found once, and no other. -/
def Balanced (count : ℕ → ℕ) (next : ℕ) : Prop := ∀ b, count b = if b < next then 1 else 0

/-- Tokens are made, each of them is put somewhere, and the others stay or are moved. -/
theorem Balanced.made (h : Balanced count next) {k : ℕ}
    (hcount : ∀ b, count' b = count b + if next ≤ b ∧ b < next + k then 1 else 0) :
    Balanced count' (next + k) := by
  intro b
  rw [hcount b, h b]
  split <;> split <;> split <;> omega

/-- A sum over the parts of a state, one of which changes. -/
theorem sum_modify {α : Type*} (f : α → ℕ) (g : α → α) {l : List α} {i : ℕ} {a : α}
    (h : l[i]? = some a) : ((l.modify i g).map f).sum + f a = (l.map f).sum + f (g a) := by
  induction l generalizing i with
  | nil => cases h
  | cons x l ih =>
    cases i with
    | zero =>
      obtain rfl := Option.some.inj h
      show f (g x) + (l.map f).sum + f x = f x + (l.map f).sum + f (g x)
      omega
    | succ i =>
      have hrest := ih h
      show f x + ((l.modify i g).map f).sum + f a = f x + (l.map f).sum + f (g a)
      omega

end Tokens

end DnServer.Lib
