import DnServer.Lib.Within
import DnServer.Lib.Transition

/-!
# Services that run handlers

A service starts a handler for each message. A handler that waits in a call stands in
`waiting` while the others go on; one that holds the service up is `holding`, and nothing
else happens until its answer is there. `Kept` says that what still waits keeps to the rules,
but for handlers that have a rule of their own. A service all of whose handlers keep to them
never leaves what they allow of its start.
-/

namespace DnServer.Lib

variable {σ μ ι M : Type} {ρ : ι → Type} {α β : Type}

namespace Co

/-! ## Calls that are answered at once -/

/-- The handler runs up to its end or to its next call that `instant` has no answer for. -/
def advanceWith (instant : (i : ι) → Option (ρ i)) : Co σ μ ι ρ α → σ → Stop σ μ ι ρ α × σ
  | .done a, s => (.done a, s)
  | .raised, s => (.raised, s)
  | .exited, s => (.exited, s)
  | .get k, s => (k s).advanceWith instant s
  | .put u k, _ => k.advanceWith instant u
  | .send _ k, s => k.advanceWith instant s
  | .call i k, s => (.call i k, s)
  | .block i k, s =>
    match instant i with
    | some r => (k r).advanceWith instant s
    | none => (.block i k, s)

theorem advanceWith_of_done {instant : (i : ι) → Option (ρ i)} {c : Co σ μ ι ρ α} {s t : σ} {a : α}
    (h : c.advance s = (.done a, t)) : c.advanceWith instant s = (.done a, t) := by
  induction c generalizing s with
  | done b => exact h
  | raised => cases h
  | exited => cases h
  | get k ih => exact ih s h
  | put u k ih => exact ih h
  | send m k ih => exact ih h
  | call i k => cases h
  | block i k => cases h

theorem advanceWith_of_raised {instant : (i : ι) → Option (ρ i)} {c : Co σ μ ι ρ α} {s t : σ}
    (h : c.advance s = (.raised, t)) : c.advanceWith instant s = (.raised, t) := by
  induction c generalizing s with
  | done b => cases h
  | raised => exact h
  | exited => cases h
  | get k ih => exact ih s h
  | put u k ih => exact ih h
  | send m k ih => exact ih h
  | call i k => cases h
  | block i k => cases h

/-! ## How a handler finishes -/

/-- A part that waits in a call hands on what is left of it. -/
theorem advance_bind_of_call {c : Co σ μ ι ρ α} {s t : σ} {i : ι} {k : ρ i → Co σ μ ι ρ α}
    (h : c.advance s = (.call i k, t)) (f : α → Co σ μ ι ρ β) :
    (c >>= f).advance s = (.call i fun r => k r >>= f, t) := by
  show (c.bind f).advance s = _
  induction c generalizing s with
  | done b => cases h
  | raised => cases h
  | exited => cases h
  | get k' ih => exact ih s h
  | put u' k' ih => exact ih h
  | send m k' ih => exact ih h
  | call i' k' =>
    obtain ⟨hstop, rfl⟩ := Prod.mk.inj h
    cases hstop
    rfl
  | block i' k' => cases h

/-- The handler finishes from `s` in `t`: it returns a value, or the service is gone. The
other services answer as `answers` allows, and nothing else happens meanwhile. -/
inductive Finishes (answers : ∀ i, ρ i → Prop) : Co σ μ ι ρ α → σ → Option α → σ → Prop
  | done (a s) : Finishes answers (.done a) s (some a) s
  | exited (s) : Finishes answers .exited s none s
  | get {k s e t} : Finishes answers (k s) s e t → Finishes answers (.get k) s e t
  | put {u k s e t} : Finishes answers k u e t → Finishes answers (.put u k) s e t
  | send {m k s e t} : Finishes answers k s e t → Finishes answers (.send m k) s e t
  | call {i k s e t} (r : ρ i) : answers i r → Finishes answers (k r) s e t →
      Finishes answers (.call i k) s e t
  | block {i k s e t} (r : ρ i) : answers i r → Finishes answers (k r) s e t →
      Finishes answers (.block i k) s e t

theorem Finishes.of_advance_done {answers : ∀ i, ρ i → Prop} {c : Co σ μ ι ρ α} {s t : σ} {a : α}
    (h : c.advance s = (.done a, t)) : Finishes answers c s (some a) t := by
  induction c generalizing s with
  | done b =>
    obtain ⟨hb, rfl⟩ := Prod.mk.inj h
    obtain rfl := Stop.done.inj hb
    exact .done b s
  | raised => cases h
  | exited => cases h
  | get k ih => exact .get (ih s h)
  | put u k ih => exact .put (ih h)
  | send m k ih => exact .send (ih h)
  | call i k => cases h
  | block i k => cases h

/-- The handler goes on with an answer to its first call. -/
theorem Finishes.of_advance_call {answers : ∀ i, ρ i → Prop} {c : Co σ μ ι ρ α} {s t : σ} {i : ι}
    {k : ρ i → Co σ μ ι ρ α} (h : c.advance s = (.call i k, t)) {r : ρ i} (hr : answers i r)
    {e : Option α} {u : σ} (hk : Finishes answers (k r) t e u) : Finishes answers c s e u := by
  induction c generalizing s with
  | done b => cases h
  | raised => cases h
  | exited => cases h
  | get k' ih => exact .get (ih s h)
  | put u' k' ih => exact .put (ih h)
  | send m k' ih => exact .send (ih h)
  | call i' k' =>
    obtain ⟨hstop, rfl⟩ := Prod.mk.inj h
    cases hstop
    exact .call r hr hk
  | block i' k' => cases h

end Co

/-! ## A service -/

/-- A service between two steps. -/
structure Service (σ μ ι : Type) (ρ : ι → Type) where
  state : σ
  /-- The handlers that wait in a call. -/
  waiting : List ((i : ι) × (ρ i → Co σ μ ι ρ Unit))
  /-- The handler that holds the service up. -/
  holding : Option ((i : ι) × (ρ i → Co σ μ ι ρ Unit))
  gone : Bool

namespace Service

def start (s : σ) : Service σ μ ι ρ := ⟨s, [], none, false⟩

/-- A handler goes on up to its end or its next call. -/
def run (S : Service σ μ ι ρ) (c : Co σ μ ι ρ Unit) : Service σ μ ι ρ :=
  match c.advance S.state with
  | (.done _, t) => { S with state := t }
  | (.raised, t) => { S with state := t }
  | (.exited, t) => { S with state := t, gone := true }
  | (.call i k, t) => { S with state := t, waiting := S.waiting ++ [⟨i, k⟩] }
  | (.block i k, t) => { S with state := t, holding := some ⟨i, k⟩ }

/-- Nothing holds the service up. -/
def Free (S : Service σ μ ι ρ) : Prop := S.holding = none ∧ S.gone = false

inductive Event (M : Type)
  | start (m : M)
  /-- A waiting handler has its answer. -/
  | resume
  /-- The handler that holds the service up has its answer. -/
  | answer
  /-- Something outside the handlers at hand changes the state. -/
  | other

/-- One step. -/
inductive Step (handle : M → Co σ μ ι ρ Unit) (others : σ → σ → Prop) :
    Service σ μ ι ρ → Event M → Service σ μ ι ρ → Prop
  | start {S} (m : M) : S.Free → Step handle others S (.start m) (S.run (handle m))
  | resume {S : Service σ μ ι ρ} {pre post i k} (r : ρ i) : S.Free →
      S.waiting = pre ++ ⟨i, k⟩ :: post →
      Step handle others S .resume ({ S with waiting := pre ++ post }.run (k r))
  | answer {S : Service σ μ ι ρ} {i k} (r : ρ i) : S.holding = some ⟨i, k⟩ →
      Step handle others S .answer ({ S with holding := none }.run (k r))
  | other {S : Service σ μ ι ρ} {t : σ} : S.Free → others S.state t →
      Step handle others S .other { S with state := t }

def system (handle : M → Co σ μ ι ρ Unit) (others : σ → σ → Prop) (init : σ → Prop) :
    TSys (Service σ μ ι ρ) (Event M) where
  init S := ∃ s, init s ∧ S = start s
  step := Step handle others

theorem run_state (S : Service σ μ ι ρ) (c : Co σ μ ι ρ Unit) :
    (S.run c).state = (c.advance S.state).2 := by
  unfold Service.run
  generalize c.advance S.state = stop
  obtain ⟨stop, t⟩ := stop
  cases stop <;> rfl

section Kept

variable {R : Co.Rules σ μ ι} {own : ((i : ι) × (ρ i → Co σ μ ι ρ Unit)) → Prop}

/-- A handler that waits keeps to the rules, or has a rule of its own. -/
inductive Waits (R : Co.Rules σ μ ι) (own : ((i : ι) × (ρ i → Co σ μ ι ρ Unit)) → Prop) :
    ((i : ι) × (ρ i → Co σ μ ι ρ Unit)) → Prop
  | own {c} : own c → Waits R own c
  | rest {i k} : R.ask i → (∀ r u, (k r).Within R (fun _ _ => True) u) → Waits R own ⟨i, k⟩

/-- Whatever the handlers that wait still do, they keep to the rules. -/
structure Kept (R : Co.Rules σ μ ι) (own : ((i : ι) × (ρ i → Co σ μ ι ρ Unit)) → Prop)
    (S : Service σ μ ι ρ) : Prop where
  waiting : ∀ c ∈ S.waiting, Waits R own c
  holding : ∀ c, S.holding = some c → ∀ r, (c.2 r).Within R (fun _ _ => True) S.state

theorem Kept.without {S : Service σ μ ι ρ} (hS : Kept R own S) {pre post}
    {c : (i : ι) × (ρ i → Co σ μ ι ρ Unit)} (hwait : S.waiting = pre ++ c :: post) :
    Kept R own { S with waiting := pre ++ post } := by
  refine ⟨fun d hd => hS.waiting d ?_, hS.holding⟩
  rw [hwait]
  exact List.mem_append.mpr ((List.mem_append.mp hd).imp_right (List.mem_cons_of_mem _))

variable (hrefl : ∀ s, R.write s s) (htrans : ∀ s t u, R.write s t → R.write t u → R.write s u)
include hrefl htrans

/-- A handler that keeps to the rules goes on. -/
theorem Kept.run {S : Service σ μ ι ρ} (hS : Kept R own S) (hfree : S.holding = none)
    {c : Co σ μ ι ρ Unit} (hc : c.Within R (fun _ _ => True) S.state) :
    Kept R own (S.run c) ∧ R.write S.state (S.run c).state := by
  obtain ⟨hR, hrest⟩ := hc.advance hrefl htrans
  have hnone : ∀ (t : σ) c', S.holding = some c' → ∀ r,
      (c'.2 r).Within R (fun _ _ => True) t := by
    intro t c' hc'
    rw [hfree] at hc'
    cases hc'
  unfold Service.run
  generalize c.advance S.state = stop at hR hrest
  obtain ⟨stop, t⟩ := stop
  cases stop with
  | done a => exact ⟨⟨hS.waiting, hnone t⟩, hR⟩
  | raised => exact ⟨⟨hS.waiting, hnone t⟩, hR⟩
  | exited => exact ⟨⟨hS.waiting, hnone t⟩, hR⟩
  | call i k =>
    refine ⟨⟨fun c' hc' => ?_, hnone t⟩, hR⟩
    rcases List.mem_append.mp hc' with hc' | hc'
    · exact hS.waiting c' hc'
    · rw [List.mem_singleton.mp hc']
      exact .rest hrest.1 hrest.2
  | block i k =>
    refine ⟨⟨hS.waiting, fun c' hc' => ?_⟩, hR⟩
    obtain rfl := Option.some.inj hc'
    exact hrest.2

/-- Where the handlers keep to the rules and the rest changes the state as they allow, the
service never leaves what they allow of its start. -/
theorem reachable_kept {handle : M → Co σ μ ι ρ Unit} {others : σ → σ → Prop} {init : σ → Prop}
    (hhandle : ∀ m s, (handle m).Within R (fun _ _ => True) s)
    (hothers : ∀ s t, others s t → R.write s t) {S : Service σ μ ι ρ}
    (hS : (system handle others init).Reachable S) : ∃ s₀, init s₀ ∧ R.write s₀ S.state := by
  have hkept : ∃ s₀, init s₀ ∧ R.write s₀ S.state ∧ Kept R (fun _ => False) S := by
    induction hS with
    | init h0 =>
      obtain ⟨s, hs, rfl⟩ := h0
      exact ⟨s, hs, hrefl s, fun c hc => absurd hc List.not_mem_nil, fun c hc => nomatch hc⟩
    | @step S _ _ _ hstep ih =>
      obtain ⟨s₀, hs₀, hstate, hK⟩ := ih
      have hgoes : ∀ {S' : Service σ μ ι ρ} {c}, Kept R (fun _ => False) S' →
          R.write s₀ S'.state → S'.holding = none → c.Within R (fun _ _ => True) S'.state →
          ∃ s₀, init s₀ ∧ R.write s₀ (S'.run c).state ∧ Kept R (fun _ => False) (S'.run c) := by
        intro S' c hK' hstate' hfree hc
        obtain ⟨hrun, hwrite⟩ := hK'.run hrefl htrans hfree hc
        exact ⟨s₀, hs₀, htrans _ _ _ hstate' hwrite, hrun⟩
      cases hstep with
      | start m hfree => exact hgoes hK hstate hfree.1 (hhandle m _)
      | @resume pre post i k r hfree hwait =>
        have hk : Waits R (fun _ => False) ⟨i, k⟩ := hK.waiting _ (by simp [hwait])
        cases hk with
        | own h => exact h.elim
        | rest _ hk => exact hgoes (hK.without hwait) hstate hfree.1 (hk r _)
      | @answer i k r hhold =>
        have hrest : Kept R (fun _ => False) { S with holding := none } :=
          ⟨hK.waiting, fun c hc => nomatch hc⟩
        exact hgoes hrest hstate rfl (hK.holding ⟨i, k⟩ hhold r)
      | other hfree hot =>
        refine ⟨s₀, hs₀, htrans _ _ _ hstate (hothers _ _ hot), hK.waiting, fun c hc => ?_⟩
        rw [hfree.1] at hc
        cases hc
  obtain ⟨s₀, hs₀, hstate, -⟩ := hkept
  exact ⟨s₀, hs₀, hstate⟩

end Kept

end Service

end DnServer.Lib
