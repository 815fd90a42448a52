import Mathlib

/-!
# Incremental decoders

A decoder reads from an input that arrives in pieces. One step looks at the
unread input and either blocks or takes something off its front. A step that
can be taken can still be taken, to the same effect, when more input stands
behind (`stable`), and it makes the input shorter (`consumes`). Draining takes
steps until one blocks; `drain_append` says that how the input was cut does not
show in what is decoded.
-/

namespace DnServer.Lib

/-- What draining leaves: what came out, the state and the unread input. -/
structure Drained (σ β ρ : Type*) where
  out : List ρ
  state : σ
  rest : List β
  deriving Repr, DecidableEq

/-- A step function on a state and the unread input; `none` blocks. -/
structure Decoder (σ β ρ : Type*) where
  step : σ → List β → Option (Drained σ β ρ)
  consumes : ∀ {s l d}, step s l = some d → d.rest.length < l.length
  stable : ∀ {s l d}, step s l = some d →
    ∀ more, step s (l ++ more) = some ⟨d.out, d.state, d.rest ++ more⟩

namespace Decoder

variable {σ β ρ : Type*} (D : Decoder σ β ρ)

/-- At most `n` steps. -/
def steps : ℕ → σ → List β → Drained σ β ρ
  | 0, s, l => ⟨[], s, l⟩
  | n + 1, s, l =>
    match D.step s l with
    | none => ⟨[], s, l⟩
    | some d =>
      let r := steps n d.state d.rest
      ⟨d.out ++ r.out, r.state, r.rest⟩

/-- Steps until one blocks. -/
def drain (s : σ) (l : List β) : Drained σ β ρ := D.steps l.length s l

/-- Each step takes something off, so as many steps as there is input are enough. -/
theorem steps_enough {n : ℕ} {s : σ} {l : List β} (h : l.length ≤ n) :
    D.steps n s l = D.drain s l := by
  induction n using Nat.strong_induction_on generalizing s l with
  | _ n ih =>
    rcases eq_or_lt_of_le h with heq | hlt
    · rw [drain, heq]
    · obtain ⟨m, rfl⟩ : ∃ m, n = m + 1 := ⟨n - 1, by omega⟩
      cases hstep : D.step s l with
      | none =>
        rw [drain]
        cases l.length <;> simp [steps, hstep]
      | some d =>
        have hd := D.consumes hstep
        obtain ⟨k, hk⟩ : ∃ k, l.length = k + 1 := ⟨l.length - 1, by omega⟩
        rw [drain, hk]
        simp only [steps, hstep]
        rw [ih m (by omega) (by omega), ih k (by omega) (by omega)]

theorem drain_of_none {s : σ} {l : List β} (h : D.step s l = none) :
    D.drain s l = ⟨[], s, l⟩ := by
  unfold drain
  cases l.length <;> simp [steps, h]

theorem drain_of_step {s : σ} {l : List β} {d : Drained σ β ρ} (h : D.step s l = some d) :
    D.drain s l = ⟨d.out ++ (D.drain d.state d.rest).out, (D.drain d.state d.rest).state,
      (D.drain d.state d.rest).rest⟩ := by
  have hd := D.consumes h
  rw [← D.steps_enough (n := l.length - 1 + 1) (by omega)]
  simp only [steps, h]
  rw [D.steps_enough (by omega)]

/-- To show something of every drained input: show it where the decoder blocks, and
carry it back over one step. -/
theorem drain_induction {P : σ → List β → Prop}
    (blocked : ∀ s l, D.step s l = none → P s l)
    (step : ∀ s l d, D.step s l = some d → P d.state d.rest → P s l) (s : σ) (l : List β) :
    P s l := by
  induction hn : l.length using Nat.strong_induction_on generalizing s l with
  | _ n ih =>
    cases h : D.step s l with
    | none => exact blocked s l h
    | some d =>
      have hd := D.consumes h
      exact step s l d h (ih d.rest.length (hn ▸ hd) d.state d.rest rfl)

theorem drain_rest_le (s : σ) (l : List β) : (D.drain s l).rest.length ≤ l.length := by
  induction s, l using D.drain_induction with
  | blocked s l h => rw [D.drain_of_none h]
  | step s l d h ih =>
    rw [D.drain_of_step h]
    exact ih.trans (D.consumes h).le

/-- Input that stands behind is drained after what stands before. -/
theorem drain_append (s : σ) (l more : List β) :
    D.drain s (l ++ more) =
      ⟨(D.drain s l).out ++ (D.drain (D.drain s l).state ((D.drain s l).rest ++ more)).out,
        (D.drain (D.drain s l).state ((D.drain s l).rest ++ more)).state,
        (D.drain (D.drain s l).state ((D.drain s l).rest ++ more)).rest⟩ := by
  induction s, l using D.drain_induction with
  | blocked s l h =>
    rw [D.drain_of_none h]
    rfl
  | step s l d h ih =>
    rw [D.drain_of_step h, D.drain_of_step (D.stable h more)]
    simp only [ih, List.append_assoc]

/-! ## Where every visit of a state is paid for with output -/

section Home

variable {home : σ}

/-- When each step into `home` puts something out, draining back to `home` in silence
takes no step at all. -/
theorem rest_of_silent (hhome : ∀ {s l d}, D.step s l = some d → d.state = home → d.out ≠ [])
    (s : σ) (l : List β) (hout : (D.drain s l).out = []) (hstate : (D.drain s l).state = home) :
    (D.drain s l).rest = l := by
  induction s, l using D.drain_induction with
  | blocked s l h => rw [D.drain_of_none h]
  | step s l d h ih =>
    rw [D.drain_of_step h] at hout hstate ⊢
    obtain ⟨hd, hrest⟩ := List.append_eq_nil_iff.mp hout
    have hl := ih hrest hstate
    exfalso
    -- the last step of all was into `home`
    cases hstep : D.step d.state d.rest with
    | none =>
      rw [D.drain_of_none hstep] at hstate
      exact hhome h hstate hd
    | some d' =>
      rw [D.drain_of_step hstep] at hl
      have hle := D.drain_rest_le d'.state d'.rest
      have hlt := D.consumes hstep
      simp only at hl
      rw [hl] at hle
      omega

end Home

end Decoder

end DnServer.Lib
