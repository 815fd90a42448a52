import Mathlib

/-!
# Tilings of an interval

An interval of the natural numbers cut into pieces, where the piece that begins
at `o` has length `span o`. Pieces do not overlap, a tiling can be cut at the
beginning of each of its pieces, and a stretch of pieces can be exchanged for
others that cover the same.
-/

namespace DnServer.Lib

/-- The pieces that begin at the numbers of the list cut `[a, b)`. -/
inductive Tiles (span : ℕ → ℕ) : ℕ → ℕ → List ℕ → Prop
  | nil (a) : Tiles span a a []
  | cons {a b l} : 0 < span a → Tiles span (a + span a) b l → Tiles span a b (a :: l)

namespace Tiles

variable {span span' : ℕ → ℕ} {a b c o o' : ℕ} {l l' seg seg' : List ℕ}

theorem single (span : ℕ → ℕ) (h : 0 < span a) : Tiles span a (a + span a) [a] := .cons h (.nil _)

theorem append (h : Tiles span a b l) (h' : Tiles span b c l') : Tiles span a c (l ++ l') := by
  induction h with
  | nil => exact h'
  | cons hpos _ ih => exact .cons hpos (ih h')

theorem le (h : Tiles span a b l) : a ≤ b := by
  induction h with
  | nil => exact le_rfl
  | cons _ _ ih => omega

theorem ne_nil (h : Tiles span a b l) (hab : a < b) : l ≠ [] := by
  cases h with
  | nil => omega
  | cons _ _ => exact List.cons_ne_nil _ _

/-- The first piece begins where the interval does. -/
theorem first_mem (h : Tiles span a b l) (hab : a < b) : a ∈ l := by
  cases h with
  | nil => omega
  | cons _ _ => exact List.mem_cons_self

/-- Every piece lies in the interval. -/
theorem bounds (h : Tiles span a b l) (ho : o ∈ l) : a ≤ o ∧ 0 < span o ∧ o + span o ≤ b := by
  induction h with
  | nil => cases ho
  | cons hpos hrest ih =>
    rcases List.mem_cons.mp ho with rfl | ho
    · exact ⟨le_rfl, hpos, hrest.le⟩
    · obtain ⟨h1, h2, h3⟩ := ih ho
      exact ⟨by omega, h2, h3⟩

/-- Of two pieces one ends before the other begins. -/
theorem disjoint (h : Tiles span a b l) (ho : o ∈ l) (ho' : o' ∈ l) (hlt : o < o') :
    o + span o ≤ o' := by
  induction h with
  | nil => cases ho
  | cons hpos hrest ih =>
    rcases List.mem_cons.mp ho with rfl | hol
    · rcases List.mem_cons.mp ho' with rfl | hol'
      · omega
      · exact (hrest.bounds hol').1
    · rcases List.mem_cons.mp ho' with heq | hol'
      · have := (hrest.bounds hol).1
        omega
      · exact ih hol hol'

/-- A tiling depends on the lengths of its pieces only. -/
theorem congr (h : Tiles span a b l) (heq : ∀ o ∈ l, span' o = span o) : Tiles span' a b l := by
  induction h with
  | nil => exact .nil _
  | @cons a b l hpos _ ih =>
    have ha := heq a List.mem_cons_self
    have hrest := ih fun o ho => heq o (List.mem_cons_of_mem _ ho)
    rw [← ha] at hrest hpos
    exact .cons hpos hrest

/-- A tiling can be cut where one of its pieces begins. -/
theorem split (h : Tiles span a b l) (ho : o ∈ l) :
    ∃ l₁ l₂, l = l₁ ++ o :: l₂ ∧ Tiles span a o l₁ ∧ Tiles span o b (o :: l₂) := by
  induction h with
  | nil => cases ho
  | @cons a b l hpos hrest ih =>
    by_cases hao : o = a
    · subst hao
      exact ⟨[], l, rfl, .nil _, .cons hpos hrest⟩
    · have hol : o ∈ l := (List.mem_cons.mp ho).resolve_left hao
      obtain ⟨l₁, l₂, rfl, h1, h2⟩ := ih hol
      exact ⟨a :: l₁, l₂, rfl, .cons hpos h1, h2⟩

/-- Where a piece ends the next one begins, or the interval ends. -/
theorem next (h : Tiles span a b l) (ho : o ∈ l) : o + span o = b ∨ o + span o ∈ l := by
  induction h with
  | nil => cases ho
  | @cons a b l hpos hrest ih =>
    rcases List.mem_cons.mp ho with rfl | hol
    · rcases Nat.lt_or_ge (o + span o) b with hlt | hge
      · exact .inr (List.mem_cons_of_mem _ (hrest.first_mem hlt))
      · exact .inl (Nat.le_antisymm hrest.le hge)
    · exact (ih hol).imp_right (List.mem_cons_of_mem _)

/-- There are no more pieces than the interval is long. -/
theorem length_le (h : Tiles span a b l) : a + l.length ≤ b := by
  induction h with
  | nil => simp
  | cons hpos _ ih =>
    rw [List.length_cons]
    omega

/-- The lengths of the pieces add up to that of the interval. -/
theorem sum_eq (h : Tiles span a b l) : a + (l.map span).sum = b := by
  induction h with
  | nil => simp
  | cons hpos _ ih =>
    rw [List.map_cons, List.sum_cons]
    omega

/-- Pieces of lengths that `k` divides make up such a length. -/
theorem dvd {k : ℕ} (h : Tiles span a b l) (hk : ∀ o ∈ l, k ∣ span o) : k ∣ b - a := by
  induction h with
  | nil => simp
  | @cons a b l hpos hrest ih =>
    have hle := hrest.le
    have hsum : b - a = span a + (b - (a + span a)) := by omega
    rw [hsum]
    exact (hk a List.mem_cons_self).add (ih fun o ho => hk o (List.mem_cons_of_mem _ ho))

/-- The interval is cut in one way only. -/
theorem unique (h : Tiles span a b l) (h' : Tiles span a b l') : l = l' := by
  induction h generalizing l' with
  | nil =>
    cases h' with
    | nil => rfl
    | cons hpos hrest =>
      have := hrest.le
      omega
  | cons hpos hrest ih =>
    cases h' with
    | nil =>
      have := hrest.le
      omega
    | cons _ hrest' => rw [ih hrest']

/-- A stretch of pieces that begins and ends where pieces do is a part of the tiling. -/
theorem stretch {e : ℕ} (h : Tiles span a b l) (ho : o ∈ l) (hseg : Tiles span o e seg)
    (he : e = b ∨ e ∈ l) :
    ∃ l₁ l₂, l = l₁ ++ seg ++ l₂ ∧ Tiles span a o l₁ ∧ Tiles span e b l₂ := by
  obtain ⟨l₁, m, rfl, h₁, hm⟩ := h.split ho
  rcases he with rfl | he
  · exact ⟨l₁, [], by rw [List.append_nil, hm.unique hseg], h₁, .nil _⟩
  · obtain ⟨k₁, k₂, hk, hk₁, hk₂⟩ := h.split he
    have hk₁' : k₁ = l₁ ++ seg := hk₁.unique (h₁.append hseg)
    exact ⟨l₁, e :: k₂, by rw [hk, hk₁'], h₁, hk₂⟩

end Tiles

end DnServer.Lib
