import Mathlib

/-!
# Labelled transition systems

Start states, labelled steps, reachability and runs. `Inductive.invariant` is
the one induction the safety results rest on. `restrict` keeps only the steps
that meet a condition on the label and the state before: a reachable state of
the restricted system is the end of a run whose steps all meet it. `observe`
keeps a record of the steps beside the state.
-/

namespace DnServer.Lib

/-- A transition system over states `σ` with labels `ε`. -/
structure TSys (σ ε : Type*) where
  init : σ → Prop
  step : σ → ε → σ → Prop

namespace TSys

variable {σ ε τ : Type*}

/-- States some run reaches. -/
inductive Reachable (T : TSys σ ε) : σ → Prop
  | init {s} : T.init s → T.Reachable s
  | step {s e t} : T.Reachable s → T.step s e t → T.Reachable t

/-- `P` holds in every reachable state. -/
def Invariant (T : TSys σ ε) (P : σ → Prop) : Prop := ∀ s, T.Reachable s → P s

/-- `P` holds at the start and every step out of a reachable state keeps it. -/
structure Inductive (T : TSys σ ε) (P : σ → Prop) : Prop where
  init : ∀ s, T.init s → P s
  step : ∀ s e t, T.Reachable s → P s → T.step s e t → P t

theorem Inductive.invariant {T : TSys σ ε} {P : σ → Prop} (h : T.Inductive P) :
    T.Invariant P := by
  intro s hs
  induction hs with
  | init h0 => exact h.init _ h0
  | step hr hstep ih => exact h.step _ _ _ hr ih hstep

/-- A system whose starts and steps are among those of another reaches no more. -/
theorem Reachable.mono {T U : TSys σ ε} (hinit : ∀ s, T.init s → U.init s)
    (hstep : ∀ s e t, T.step s e t → U.step s e t) {s : σ} (h : T.Reachable s) :
    U.Reachable s := by
  induction h with
  | init h0 => exact .init (hinit _ h0)
  | step _ hs ih => exact .step ih (hstep _ _ _ hs)

/-- The steps of `T` that meet `C`. -/
def restrict (T : TSys σ ε) (C : σ → ε → Prop) : TSys σ ε where
  init := T.init
  step s e t := C s e ∧ T.step s e t

theorem Reachable.of_restrict {T : TSys σ ε} {C : σ → ε → Prop} {s : σ}
    (h : (T.restrict C).Reachable s) : T.Reachable s :=
  Reachable.mono (T := T.restrict C) (U := T) (fun _ h0 => h0) (fun _ _ _ hs => hs.2) h

/-- `T` with a record kept along: it starts as `start s` and `note` adds each step
to it. -/
def observe (T : TSys σ ε) (start : σ → τ) (note : σ → ε → σ → τ → τ) : TSys (σ × τ) ε where
  init p := T.init p.1 ∧ p.2 = start p.1
  step p e q := T.step p.1 e q.1 ∧ q.2 = note p.1 e q.1 p.2

section Observe

variable {T : TSys σ ε} {start : σ → τ} {note : σ → ε → σ → τ → τ}

theorem Reachable.of_observe {p : σ × τ} (h : (T.observe start note).Reachable p) :
    T.Reachable p.1 := by
  induction h with
  | init h0 => exact .init h0.1
  | step _ hstep ih => exact .step ih hstep.1

/-- Keeping a record rules no state out. -/
theorem Reachable.observe {s : σ} (h : T.Reachable s) :
    ∃ r, (T.observe start note).Reachable (s, r) := by
  induction h with
  | init h0 => exact ⟨start _, .init ⟨h0, rfl⟩⟩
  | @step s e t _ hstep ih =>
    obtain ⟨r, hr⟩ := ih
    exact ⟨note s e t r, .step hr ⟨hstep, rfl⟩⟩

end Observe

/-- A run from one state to another, with its labels in order. -/
inductive Run (T : TSys σ ε) : σ → List ε → σ → Prop
  | nil (s) : T.Run s [] s
  | cons {s e t es u} : T.step s e t → T.Run t es u → T.Run s (e :: es) u

/-- What each step out of a reachable state keeps, a run keeps. -/
theorem Run.preserves {T : TSys σ ε} {P : σ → Prop}
    (hstep : ∀ s e t, T.Reachable s → P s → T.step s e t → P t)
    {s t : σ} {es : List ε} (h : T.Run s es t) (hs : T.Reachable s) (hP : P s) : P t := by
  induction h with
  | nil => exact hP
  | cons h1 _ ih => exact ih (.step hs h1) (hstep _ _ _ hs hP h1)

/-! ## Runs by evaluation -/

/-- The labels in order, each taken by `exec`. -/
def execAll (exec : σ → ε → Option σ) : σ → List ε → Option σ
  | s, [] => some s
  | s, e :: es => (exec s e).bind fun t => execAll exec t es

theorem execAll_append {exec : σ → ε → Option σ} {s : σ} {es es' : List ε} :
    execAll exec s (es ++ es') = (execAll exec s es).bind fun t => execAll exec t es' := by
  induction es generalizing s with
  | nil => rfl
  | cons e es ih =>
    rw [List.cons_append, execAll, execAll, Option.bind_assoc]
    exact congrArg _ (funext fun t => ih)

/-- Where an evaluation ends that takes steps only, the system can end. -/
theorem Reachable.execAll {T : TSys σ ε} {exec : σ → ε → Option σ}
    (hexec : ∀ s e t, exec s e = some t → T.step s e t) :
    ∀ {es : List ε} {s t : σ}, T.Reachable s → TSys.execAll exec s es = some t → T.Reachable t
  | [], s, t, hs, h => by
    obtain rfl := Option.some.inj h
    exact hs
  | e :: es, s, t, hs, h => by
    obtain ⟨u, hu, hrest⟩ := Option.bind_eq_some_iff.mp h
    exact Reachable.execAll hexec (.step hs (hexec s e u hu)) hrest

/-- Evaluation of an observed system. -/
def observeExec (exec : σ → ε → Option σ) (note : σ → ε → σ → τ → τ) :
    σ × τ → ε → Option (σ × τ) :=
  fun p e => (exec p.1 e).map fun t => (t, note p.1 e t p.2)

theorem observeExec_step {T : TSys σ ε} {start : σ → τ} {note : σ → ε → σ → τ → τ}
    {exec : σ → ε → Option σ} (hexec : ∀ s e t, exec s e = some t → T.step s e t)
    (p : σ × τ) (e : ε) (q : σ × τ) (h : observeExec exec note p e = some q) :
    (T.observe start note).step p e q := by
  obtain ⟨t, ht, rfl⟩ := Option.map_eq_some_iff.mp h
  exact ⟨hexec p.1 e t ht, rfl⟩

/-- Evaluation of a restricted system. -/
def restrictExec (C : σ → ε → Prop) [∀ s e, Decidable (C s e)] (exec : σ → ε → Option σ) :
    σ → ε → Option σ := fun s e => if C s e then exec s e else none

theorem restrictExec_step {T : TSys σ ε} {C : σ → ε → Prop} [∀ s e, Decidable (C s e)]
    {exec : σ → ε → Option σ} (hexec : ∀ s e t, exec s e = some t → T.step s e t)
    (s : σ) (e : ε) (t : σ) (h : restrictExec C exec s e = some t) : (T.restrict C).step s e t := by
  unfold restrictExec at h
  by_cases hC : C s e
  · rw [if_pos hC] at h
    exact ⟨hC, hexec s e t h⟩
  · rw [if_neg hC] at h
    cases h

/-- An evaluation whose end satisfies `p` shows that such a state is reachable. -/
theorem reachable_of_exec {T : TSys σ ε} {exec : σ → ε → Option σ}
    (hexec : ∀ s e t, exec s e = some t → T.step s e t) {s : σ} (hs : T.init s) {l : List ε}
    {p : σ → Bool} (h : (TSys.execAll exec s l).any p = true) :
    ∃ t, T.Reachable t ∧ p t = true := by
  obtain ⟨t, ht, hp⟩ := (Option.any_eq_true p _).mp h
  exact ⟨t, Reachable.execAll hexec (.init hs) ht, hp⟩

end TSys

end DnServer.Lib
