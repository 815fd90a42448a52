import Mathlib

/-!
# Handlers that wait in the middle

A service with one state runs its handlers as coroutines. A handler reads and writes
the state, sends, and calls other services. While it waits for an answer to a call the
service goes on with its other handlers, unless the call blocks the service. `Ends`
is how a handler runs from start to end, whatever it is answered and whatever the
others do meanwhile; `wp` is what a handler's state has to meet for a condition at
the end, and the rules for it follow a handler's text. `note` keeps a record of the
handler's own writes.
-/

namespace DnServer.Lib

variable {σ μ ι : Type} {ρ : ι → Type} {α β γ : Type}

/-- A handler: its state is `σ`, it sends `μ` and calls `ι`, answered in `ρ`. -/
inductive Co (σ μ ι : Type) (ρ : ι → Type) (α : Type) : Type
  | done (a : α)
  /-- An error; nobody catches it. -/
  | raised
  /-- The service is gone. -/
  | exited
  | get (k : σ → Co σ μ ι ρ α)
  | put (s : σ) (k : Co σ μ ι ρ α)
  | send (m : μ) (k : Co σ μ ι ρ α)
  /-- A call during which other handlers run. -/
  | call (i : ι) (k : ρ i → Co σ μ ι ρ α)
  /-- A call during which the service stands still. -/
  | block (i : ι) (k : ρ i → Co σ μ ι ρ α)

namespace Co

def bind : Co σ μ ι ρ α → (α → Co σ μ ι ρ β) → Co σ μ ι ρ β
  | .done a, f => f a
  | .raised, _ => .raised
  | .exited, _ => .exited
  | .get k, f => .get fun s => (k s).bind f
  | .put s k, f => .put s (k.bind f)
  | .send m k, f => .send m (k.bind f)
  | .call i k, f => .call i fun r => (k r).bind f
  | .block i k, f => .block i fun r => (k r).bind f

instance : Monad (Co σ μ ι ρ) where
  pure := .done
  bind := bind

/-! ## What a handler is written with -/

def raise : Co σ μ ι ρ α := .raised

def exit : Co σ μ ι ρ α := .exited

def read : Co σ μ ι ρ σ := .get .done

def write (f : σ → σ) : Co σ μ ι ρ Unit := .get fun s => .put (f s) (.done ())

def tell (m : μ) : Co σ μ ι ρ Unit := .send m (.done ())

def await (i : ι) : Co σ μ ι ρ (ρ i) := .call i .done

def hold (i : ι) : Co σ μ ι ρ (ρ i) := .block i .done

/-- A value that has to be there. -/
def need : Option α → Co σ μ ι ρ α
  | some a => .done a
  | none => .raised

/-! ## Up to the next call -/

/-- Where a handler stands: at its end, or in a call. -/
inductive Stop (σ μ ι : Type) (ρ : ι → Type) (α : Type) : Type
  | done (a : α)
  | raised
  | exited
  | call (i : ι) (k : ρ i → Co σ μ ι ρ α)
  | block (i : ι) (k : ρ i → Co σ μ ι ρ α)

/-- The handler runs up to its end or its next call. -/
def advance : Co σ μ ι ρ α → σ → Stop σ μ ι ρ α × σ
  | .done a, s => (.done a, s)
  | .raised, s => (.raised, s)
  | .exited, s => (.exited, s)
  | .get k, s => (k s).advance s
  | .put t k, _ => k.advance t
  | .send _ k, s => k.advance s
  | .call i k, s => (.call i k, s)
  | .block i k, s => (.block i k, s)

/-- The messages it sends on that way. -/
def sends : Co σ μ ι ρ α → σ → List μ
  | .get k, s => (k s).sends s
  | .put t k, _ => k.sends t
  | .send m k, s => m :: k.sends s
  | _, _ => []

/-- A part that ends hands on to the rest. -/
theorem advance_bind_of_done {c : Co σ μ ι ρ α} {s t : σ} {a : α} (h : c.advance s = (.done a, t))
    (f : α → Co σ μ ι ρ β) : (c >>= f).advance s = (f a).advance t := by
  show (c.bind f).advance s = _
  induction c generalizing s with
  | done b =>
    obtain ⟨hb, rfl⟩ := Prod.mk.inj h
    obtain rfl := Stop.done.inj hb
    rfl
  | raised => cases h
  | exited => cases h
  | get k ih => exact ih s h
  | put u k ih => exact ih h
  | send m k ih => exact ih h
  | call i k => cases h
  | block i k => cases h

/-- A part that raises ends the handler. -/
theorem advance_bind_of_raised {c : Co σ μ ι ρ α} {s t : σ} (h : c.advance s = (.raised, t))
    (f : α → Co σ μ ι ρ β) : (c >>= f).advance s = (.raised, t) := by
  show (c.bind f).advance s = _
  induction c generalizing s with
  | done b => cases h
  | raised =>
    obtain ⟨-, rfl⟩ := Prod.mk.inj h
    rfl
  | exited => cases h
  | get k ih => exact ih s h
  | put u k ih => exact ih h
  | send m k ih => exact ih h
  | call i k => cases h
  | block i k => cases h

@[simp] theorem advance_pure (a : α) (s : σ) :
    (pure a : Co σ μ ι ρ α).advance s = (.done a, s) := rfl

@[simp] theorem advance_read_bind (f : σ → Co σ μ ι ρ β) (s : σ) :
    (read >>= f : Co σ μ ι ρ β).advance s = (f s).advance s := rfl

@[simp] theorem advance_write (f : σ → σ) (s : σ) :
    (write f : Co σ μ ι ρ Unit).advance s = (.done (), f s) := rfl

@[simp] theorem advance_write_bind (g : σ → σ) (f : Unit → Co σ μ ι ρ β) (s : σ) :
    (write g >>= f : Co σ μ ι ρ β).advance s = (f ()).advance (g s) := rfl

@[simp] theorem advance_tell_bind (m : μ) (f : Unit → Co σ μ ι ρ β) (s : σ) :
    (tell m >>= f : Co σ μ ι ρ β).advance s = (f ()).advance s := rfl

@[simp] theorem advance_need_some_bind (a : α) (f : α → Co σ μ ι ρ β) (s : σ) :
    (need (some a) >>= f : Co σ μ ι ρ β).advance s = (f a).advance s := rfl

@[simp] theorem advance_need_none_bind (f : α → Co σ μ ι ρ β) (s : σ) :
    (need none >>= f : Co σ μ ι ρ β).advance s = (.raised, s) := rfl

/-! ## Runs of one handler -/

/-- A handler runs from `s` and ends with `a` in `t`. While it waits in a call the
others change the state by `others`; `note` records its own writes in `g`. -/
inductive Ends (note : σ → σ → γ → γ) (others : σ → σ → Prop) :
    Co σ μ ι ρ α → σ → γ → α → σ → γ → Prop
  | done (a s g) : Ends note others (.done a) s g a s g
  | get {k s g a t g'} : Ends note others (k s) s g a t g' → Ends note others (.get k) s g a t g'
  | put {u k s g a t g'} : Ends note others k u (note s u g) a t g' →
      Ends note others (.put u k) s g a t g'
  | send {m k s g a t g'} : Ends note others k s g a t g' → Ends note others (.send m k) s g a t g'
  | call {i k s u g a t g'} (r : ρ i) : others s u → Ends note others (k r) u g a t g' →
      Ends note others (.call i k) s g a t g'
  | block {i k s g a t g'} (r : ρ i) : Ends note others (k r) s g a t g' →
      Ends note others (.block i k) s g a t g'

/-- Every end of the handler meets `Q`. -/
def wp (note : σ → σ → γ → γ) (others : σ → σ → Prop) :
    Co σ μ ι ρ α → (α → σ → γ → Prop) → σ → γ → Prop
  | .done a, Q, s, g => Q a s g
  | .raised, _, _, _ => True
  | .exited, _, _, _ => True
  | .get k, Q, s, g => (k s).wp note others Q s g
  | .put u k, Q, s, g => k.wp note others Q u (note s u g)
  | .send _ k, Q, s, g => k.wp note others Q s g
  | .call _ k, Q, s, g => ∀ r u, others s u → (k r).wp note others Q u g
  | .block _ k, Q, s, g => ∀ r, (k r).wp note others Q s g

section Rules

variable {note : σ → σ → γ → γ} {others : σ → σ → Prop} {Q Q' : α → σ → γ → Prop} {s : σ} {g : γ}

theorem wp_of_ends {c : Co σ μ ι ρ α} {a : α} {t : σ} {g' : γ} (h : Ends note others c s g a t g')
    (hwp : c.wp note others Q s g) : Q a t g' := by
  induction h with
  | done => exact hwp
  | get _ ih => exact ih hwp
  | put _ ih => exact ih hwp
  | send _ ih => exact ih hwp
  | call r hu _ ih => exact ih (hwp r _ hu)
  | block r _ ih => exact ih (hwp r)

/-- `wp` says just that. -/
theorem wp_iff (c : Co σ μ ι ρ α) (Q : α → σ → γ → Prop) (s : σ) (g : γ) :
    c.wp note others Q s g ↔ ∀ a t g', Ends note others c s g a t g' → Q a t g' := by
  constructor
  · intro hwp a t g' h
    exact wp_of_ends h hwp
  · intro h
    induction c generalizing s g with
    | done a => exact h a s g (.done a s g)
    | raised => trivial
    | exited => trivial
    | get k ih => exact ih s s g fun a t g' hk => h a t g' (.get hk)
    | put u k ih => exact ih u _ fun a t g' hk => h a t g' (.put hk)
    | send m k ih => exact ih s g fun a t g' hk => h a t g' (.send hk)
    | call i k ih =>
      intro r u hu
      exact ih r u g fun a t g' hk => h a t g' (.call r hu hk)
    | block i k ih =>
      intro r
      exact ih r s g fun a t g' hk => h a t g' (.block r hk)

theorem wp_mono {c : Co σ μ ι ρ α} (hQ : ∀ a t g', Q a t g' → Q' a t g')
    (h : c.wp note others Q s g) : c.wp note others Q' s g := by
  rw [wp_iff] at h ⊢
  intro a t g' he
  exact hQ a t g' (h a t g' he)

@[simp] theorem wp_bind (c : Co σ μ ι ρ α) (f : α → Co σ μ ι ρ β) (Q : β → σ → γ → Prop) (s : σ)
    (g : γ) :
    (c >>= f).wp note others Q s g ↔
      c.wp note others (fun a t g' => (f a).wp note others Q t g') s g := by
  show (c.bind f).wp note others Q s g ↔ _
  induction c generalizing s g with
  | done a => exact Iff.rfl
  | raised => exact Iff.rfl
  | exited => exact Iff.rfl
  | get k ih => exact ih s s g
  | put u k ih => exact ih u _
  | send m k ih => exact ih s g
  | call i k ih =>
    constructor
    · intro h r u hu
      exact (ih r u g).mp (h r u hu)
    · intro h r u hu
      exact (ih r u g).mpr (h r u hu)
  | block i k ih =>
    constructor
    · intro h r
      exact (ih r s g).mp (h r)
    · intro h r
      exact (ih r s g).mpr (h r)

@[simp] theorem wp_read {Q : σ → σ → γ → Prop} :
    (read : Co σ μ ι ρ σ).wp note others Q s g ↔ Q s s g := Iff.rfl

@[simp] theorem wp_write {Q : Unit → σ → γ → Prop} (f : σ → σ) :
    (write f : Co σ μ ι ρ Unit).wp note others Q s g ↔ Q () (f s) (note s (f s) g) := Iff.rfl

@[simp] theorem wp_need (x : Option α) :
    (need x : Co σ μ ι ρ α).wp note others Q s g ↔ ∀ a, x = some a → Q a s g := by
  cases x with
  | none =>
    constructor
    · intro _ a ha
      cases ha
    · intro _
      trivial
  | some a =>
    constructor
    · rintro h _ ⟨⟩
      exact h
    · intro h
      exact h a rfl

theorem wp_ite {p : Prop} [Decidable p] {c d : Co σ μ ι ρ α} :
    (if p then c else d).wp note others Q s g ↔
      (p → c.wp note others Q s g) ∧ (¬p → d.wp note others Q s g) := by
  by_cases hp : p
  · rw [if_pos hp]
    constructor
    · intro h
      exact ⟨fun _ => h, fun hn => absurd hp hn⟩
    · intro h
      exact h.1 hp
  · rw [if_neg hp]
    constructor
    · intro h
      exact ⟨fun hn => absurd hn hp, fun _ => h⟩
    · intro h
      exact h.2 hp

end Rules

end Co

end DnServer.Lib
