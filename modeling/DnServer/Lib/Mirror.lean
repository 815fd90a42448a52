import Mathlib

/-!
# Two maps that mirror each other

A service often keeps one relation twice: who holds a place, and which place one
holds. `Mirror f g` says the two records are the same relation, read from either
side. Linking a free pair and unlinking a linked one keep it; a change on one
side alone breaks it.
-/

namespace DnServer.Lib

variable {α β : Type*}

/-- `f a` is `b` exactly when `g b` is `a`. -/
def Mirror (f : α → Option β) (g : β → Option α) : Prop :=
  ∀ a b, f a = some b ↔ g b = some a

namespace Mirror

variable {f : α → Option β} {g : β → Option α}

/-- No two hold the same place. -/
theorem unique (h : Mirror f g) {a a' : α} {b : β} (ha : f a = some b) (ha' : f a' = some b) :
    a = a' := by
  have hb := (h a b).mp ha
  rw [(h a' b).mp ha'] at hb
  exact (Option.some.inj hb).symm

/-- A free pair is linked. -/
theorem link (h : Mirror f g) {f' : α → Option β} {g' : β → Option α} {a : α} {b : β}
    (ha : f a = none) (hb : g b = none)
    (hfa : f' a = some b) (hf : ∀ x, x ≠ a → f' x = f x)
    (hgb : g' b = some a) (hg : ∀ y, y ≠ b → g' y = g y) : Mirror f' g' := by
  intro x y
  rcases eq_or_ne x a with rfl | hx
  · rcases eq_or_ne y b with rfl | hy
    · rw [hfa, hgb]
      simp
    · rw [hfa, hg y hy, ← h, ha]
      simp [Ne.symm hy]
  · rcases eq_or_ne y b with rfl | hy
    · rw [hf x hx, hgb, h, hb]
      simp [Ne.symm hx]
    · rw [hf x hx, hg y hy]
      exact h x y

/-- A linked pair is parted. -/
theorem unlink (h : Mirror f g) {f' : α → Option β} {g' : β → Option α} {a : α} {b : β}
    (hab : f a = some b)
    (hfa : f' a = none) (hf : ∀ x, x ≠ a → f' x = f x)
    (hgb : g' b = none) (hg : ∀ y, y ≠ b → g' y = g y) : Mirror f' g' := by
  intro x y
  rcases eq_or_ne x a with rfl | hx
  · rcases eq_or_ne y b with rfl | hy
    · rw [hfa, hgb]
      simp
    · rw [hfa, hg y hy, ← h, hab]
      simp [Ne.symm hy]
  · rcases eq_or_ne y b with rfl | hy
    · rw [hf x hx, hgb, h, (h a y).mp hab]
      simp [Ne.symm hx]
    · rw [hf x hx, hg y hy]
      exact h x y

/-- One side forgets a link the other keeps. -/
theorem not_of_half (h : Mirror f g) {f' : α → Option β} {g' : β → Option α} {a : α} {b : β}
    (hab : f a = some b) (hfa : f' a = none) (hgb : g' b = g b) : ¬ Mirror f' g' := by
  intro h'
  have : f' a = some b := (h' a b).mpr (hgb.trans ((h a b).mp hab))
  rw [hfa] at this
  cases this

end Mirror

end DnServer.Lib
