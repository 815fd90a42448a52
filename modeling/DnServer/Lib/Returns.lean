import Mathlib

/-!
# Computations that may fail

`Returns x P`: the computation does not fail, and its result has the property. The rules
follow the way a computation is put together; a loop keeps an invariant, and a search finds
what each of its rounds would find.
-/

namespace DnServer.Lib

universe u

variable {α β : Type u}

def Returns (x : Option α) (P : α → Prop) : Prop := ∃ a, x = some a ∧ P a

namespace Returns

variable {x : Option α} {P Q : α → Prop}

theorem pure {a : α} (h : P a) : Returns (pure a) P := ⟨a, rfl, h⟩

theorem some {a : α} (h : P a) : Returns (some a) P := ⟨a, rfl, h⟩

/-- What is found, if anything. -/
theorem none {P : β → Prop} : Returns (Pure.pure Option.none) fun r : Option β => ∀ b ∈ r, P b :=
  pure fun b hb => absurd hb (Option.not_mem_none b)

theorem found {P : β → Prop} {b : β} (h : P b) :
    Returns (Pure.pure (Option.some b)) fun r : Option β => ∀ b' ∈ r, P b' := by
  refine pure fun b' hb => ?_
  obtain rfl := Option.mem_some_iff.mp hb
  exact h

theorem mono (h : Returns x P) (hPQ : ∀ a, P a → Q a) : Returns x Q := by
  obtain ⟨a, hx, ha⟩ := h
  exact ⟨a, hx, hPQ a ha⟩

theorem bind {f : α → Option β} {R : β → Prop} (h : Returns x P)
    (hf : ∀ a, P a → Returns (f a) R) : Returns (x >>= f) R := by
  obtain ⟨a, rfl, ha⟩ := h
  exact hf a ha

/-- The result of a computation that returns. -/
theorem of_eq_some {a : α} (h : Returns x P) (hx : x = Option.some a) : P a := by
  obtain ⟨b, hb, hP⟩ := h
  obtain rfl := Option.some.inj (hx.symm.trans hb)
  exact hP

/-- A loop keeps its invariant. -/
theorem foldlM {f : β → α → Option β} {I : β → Prop} {l : List α}
    (hstep : ∀ a ∈ l, ∀ b, I b → Returns (f b a) I) :
    ∀ {b : β}, I b → Returns (l.foldlM f b) I := by
  induction l with
  | nil => exact fun h => ⟨_, rfl, h⟩
  | cons a l ih =>
    intro b hb
    rw [List.foldlM_cons]
    exact (hstep a List.mem_cons_self b hb).bind fun b' hb' =>
      ih (fun a ha => hstep a (List.mem_cons_of_mem _ ha)) hb'

/-- A search finds what one of its rounds finds. -/
theorem findSomeM? {f : α → Option (Option β)} {P : β → Prop} {l : List α}
    (hround : ∀ a ∈ l, Returns (f a) fun r => ∀ b ∈ r, P b) :
    Returns (l.findSomeM? f) fun r => ∀ b ∈ r, P b := by
  induction l with
  | nil => exact none
  | cons a l ih =>
    obtain ⟨r, hr, hP⟩ := hround a List.mem_cons_self
    rw [List.findSomeM?, hr]
    cases r with
    | some b => exact ⟨Option.some b, rfl, hP⟩
    | none => exact ih fun a ha => hround a (List.mem_cons_of_mem _ ha)

end Returns

end DnServer.Lib
