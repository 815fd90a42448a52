import Mathlib.Data.List.Basic

/-!
# The latest news

A value that a list of news is about: what is no news leaves it as it is, and
news replaces it. Who has not heard the list yet has the value from before.
-/

namespace DnServer.Lib

variable {α β : Type*}

/-- The value after the news in the list. -/
def latest (news : α → Option β) : β → List α → β
  | b, [] => b
  | b, a :: l => latest news ((news a).getD b) l

variable {news : α → Option β} {a : α} {b c : β} {l l' : List α}

@[simp] theorem latest_nil : latest news b [] = b := rfl

theorem latest_cons : latest news b (a :: l) = latest news ((news a).getD b) l := rfl

theorem latest_append : latest news b (l ++ l') = latest news (latest news b l) l' := by
  induction l generalizing b with
  | nil => rfl
  | cons a l ih => exact ih

theorem latest_concat (h : news a = some c) : latest news b (l ++ [a]) = c := by
  rw [latest_append, latest_cons, h]
  rfl

theorem latest_of_silent (h : ∀ a ∈ l, news a = none) : latest news b l = b := by
  induction l with
  | nil => rfl
  | cons a l ih =>
    rw [latest_cons, h a List.mem_cons_self]
    exact ih fun x hx => h x (List.mem_cons_of_mem _ hx)

theorem latest_append_of_silent (h : ∀ a ∈ l', news a = none) :
    latest news b (l ++ l') = latest news b l := by
  rw [latest_append, latest_of_silent h]

/-- Where there is news, the value from before does not matter. -/
theorem latest_congr (h : ∃ a ∈ l, (news a).isSome) : latest news b l = latest news c l := by
  induction l generalizing b c with
  | nil =>
    obtain ⟨a, ha, -⟩ := h
    cases ha
  | cons a l ih =>
    rw [latest_cons, latest_cons]
    cases ha : news a with
    | some v => rfl
    | none =>
      obtain ⟨x, hx, hnews⟩ := h
      rcases List.mem_cons.mp hx with rfl | hx
      · rw [ha] at hnews
        cases hnews
      · exact ih ⟨x, hx, hnews⟩

/-- The value is the one from before, or it is news. -/
theorem latest_cases : latest news b l = b ∨ ∃ a ∈ l, news a = some (latest news b l) := by
  induction l generalizing b with
  | nil => exact .inl rfl
  | cons a l ih =>
    rw [latest_cons]
    rcases ih (b := (news a).getD b) with hsame | ⟨x, hx, hnews⟩
    · rw [hsame]
      cases ha : news a with
      | none => exact .inl rfl
      | some v => exact .inr ⟨a, List.mem_cons_self, ha⟩
    · exact .inr ⟨x, List.mem_cons_of_mem _ hx, hnews⟩

end DnServer.Lib
