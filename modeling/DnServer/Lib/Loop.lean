import Mathlib

/-!
# Loops that may break

`loop` runs a body over a list until the body breaks. Its rule takes an invariant that knows
which elements have been visited: at the end all have, and at a break the invariant is gone and
only the postcondition counts.
-/

namespace DnServer.Lib

variable {σ α : Type*}

/-- The body says whether the loop breaks. -/
def loop (body : σ → α → σ × Bool) : List α → σ → σ
  | [], s => s
  | a :: rest, s => if (body s a).2 then (body s a).1 else loop body rest (body s a).1

theorem loop_append_rule {body : σ → α → σ × Bool} {I : List α → σ → Prop} {Q : σ → Prop}
    {l : List α}
    (hgo : ∀ done a rest s, l = done ++ a :: rest → I done s → (body s a).2 = false →
      I (done ++ [a]) (body s a).1)
    (hbreak : ∀ done a rest s, l = done ++ a :: rest → I done s → (body s a).2 = true →
      Q (body s a).1)
    (hend : ∀ s, I l s → Q s) (done rest : List α) (s : σ) (hl : l = done ++ rest) (h : I done s) :
    Q (loop body rest s) := by
  induction rest generalizing done s with
  | nil =>
    rw [List.append_nil] at hl
    exact hend s (hl ▸ h)
  | cons a rest ih =>
    rw [loop]
    cases hstop : (body s a).2 with
    | true =>
      rw [if_pos rfl]
      exact hbreak done a rest s hl h hstop
    | false =>
      rw [if_neg Bool.false_ne_true]
      refine ih (done ++ [a]) _ ?_ (hgo done a rest s hl h hstop)
      rw [List.append_assoc]
      exact hl

/-- What a body that goes on keeps, and a body that breaks leaves. -/
theorem loop_rule {body : σ → α → σ × Bool} (I : List α → σ → Prop) {Q : σ → Prop} {l : List α}
    {s : σ} (h : I [] s)
    (hgo : ∀ done a rest s, l = done ++ a :: rest → I done s → (body s a).2 = false →
      I (done ++ [a]) (body s a).1)
    (hbreak : ∀ done a rest s, l = done ++ a :: rest → I done s → (body s a).2 = true →
      Q (body s a).1)
    (hend : ∀ s, I l s → Q s) : Q (loop body l s) :=
  loop_append_rule hgo hbreak hend [] l s rfl h

end DnServer.Lib
