import Mathlib

/-!
# Handlers that may raise

A handler of a scripted service reads and writes the service's state and may
raise in the middle. What it wrote before the error stays written, so the error
carries the state it left: a handler's result is `Except (ε × σ) σ`, and `after`
is the state the next message finds whether or not the handler raised.
-/

namespace DnServer.Lib.Handler

universe u

variable {ε ρ : Type*} {σ α β : Type u}

/-- Use a value that may be missing: raise `e` in state `s` if it is. -/
def index (s : σ) (e : ε) : Option α → Except (ε × σ) α
  | some a => .ok a
  | none => .error (e, s)

/-- The state a handler leaves, also when it raises. -/
def after : Except (ε × σ) σ → σ
  | .ok s => s
  | .error (_, s) => s

@[simp] theorem index_some (s : σ) (e : ε) (a : α) : index s e (some a) = .ok a := rfl

@[simp] theorem index_none (s : σ) (e : ε) : index (α := α) s e none = .error (e, s) := rfl

theorem index_of_some {x : Option α} {a : α} (h : x = some a) (s : σ) (e : ε) :
    index s e x = .ok a := by rw [h, index_some]

theorem index_of_none {x : Option α} (h : x = none) (s : σ) (e : ε) :
    index s e x = .error (e, s) := by rw [h, index_none]

@[simp] theorem after_ok (s : σ) : after (.ok s : Except (ε × σ) σ) = s := rfl

@[simp] theorem after_error (e : ε) (s : σ) : after (.error (e, s) : Except (ε × σ) σ) = s := rfl

@[simp] theorem ok_bind (a : α) (f : α → Except ε β) :
    ((Except.ok a : Except ε α) >>= f) = f a := rfl

/-- A step that ends normally hands its state on. -/
theorem bind_of_ok {x : Except ε α} {a : α} (h : x = .ok a) (f : α → Except ε β) :
    (x >>= f) = f a := by rw [h, ok_bind]

/-- A step that raises ends the handler. -/
theorem bind_of_error {x : Except ε α} {e : ε} (h : x = .error e) (f : α → Except ε β) :
    (x >>= f) = .error e := by rw [h]; rfl

@[simp] theorem error_bind (e : ε) (f : α → Except ε β) :
    ((Except.error e : Except ε α) >>= f) = .error e := rfl

@[simp] theorem pure_eq_ok (a : α) : (pure a : Except ε α) = .ok a := rfl

/-! ## Handlers that answer -/

/-- The state an answering handler leaves, also when it raises. -/
def left : Except (ε × σ) (σ × ρ) → σ
  | .ok (s, _) => s
  | .error (_, s) => s

@[simp] theorem left_ok (p : σ × ρ) : left (.ok p : Except (ε × σ) (σ × ρ)) = p.1 := rfl

@[simp] theorem left_error (e : ε × σ) : left (.error e : Except (ε × σ) (σ × ρ)) = e.2 := rfl

/-- A step that only reads: if it raises, it raises in the state `s` it was given. -/
def ReadsOnly {α : Type*} (s : σ) (x : Except (ε × σ) α) : Prop := ∀ e, x = .error e → e.2 = s

namespace ReadsOnly

variable {γ δ : Type*} {s : σ}

@[simp] theorem ok (a : γ) : ReadsOnly s (.ok a : Except (ε × σ) γ) := by
  intro e h
  cases h

@[simp] theorem error (e : ε) : ReadsOnly s (.error (e, s) : Except (ε × σ) γ) := by
  rintro _ ⟨⟩
  rfl

theorem index (e : ε) (x : Option α) : ReadsOnly s (Handler.index s e x) := by
  cases x with
  | some a => exact ok a
  | none => exact error e

theorem bind {x : Except (ε × σ) γ} {f : γ → Except (ε × σ) δ} (hx : ReadsOnly s x)
    (hf : ∀ a, x = .ok a → ReadsOnly s (f a)) : ReadsOnly s (x.bind f) := by
  cases x with
  | ok a => exact hf a rfl
  | error e =>
    rintro _ ⟨⟩
    exact hx e rfl

end ReadsOnly

/-- A loop that may raise, with an invariant on the rounds done and the state:
it ends normally with the invariant for the whole list, or raises as some round
does. -/
theorem foldlM_rounds {γ : Type*} {f : σ → γ → Except ε σ} {I : List γ → σ → Prop}
    {E : ε → Prop} {l : List γ} {s : σ}
    (h : ∀ done c rest s, l = done ++ c :: rest → I done s →
      (∃ t, f s c = .ok t ∧ I (done ++ [c]) t) ∨ ∃ e, f s c = .error e ∧ E e)
    (hs : I [] s) :
    (∃ t, l.foldlM f s = .ok t ∧ I l t) ∨ ∃ e, l.foldlM f s = .error e ∧ E e := by
  suffices hgen : ∀ rest done s, l = done ++ rest → I done s →
      (∃ t, rest.foldlM f s = .ok t ∧ I l t) ∨ ∃ e, rest.foldlM f s = .error e ∧ E e from
    hgen l [] s rfl hs
  intro rest
  induction rest with
  | nil =>
    intro done s hl hI
    rw [List.append_nil] at hl
    exact .inl ⟨s, rfl, hl ▸ hI⟩
  | cons c rest ih =>
    intro done s hl hI
    rcases h done c rest s hl hI with ⟨t, ht, hIt⟩ | ⟨e, he, hE⟩
    · rw [List.foldlM_cons, ht, ok_bind]
      exact ih (done ++ [c]) t (by rw [hl, List.append_assoc]; rfl) hIt
    · exact .inr ⟨e, by rw [List.foldlM_cons, he, error_bind], hE⟩

/-- The same for a loop none of whose rounds raises. -/
theorem foldlM_rounds_ok {γ : Type*} {f : σ → γ → Except ε σ} {I : List γ → σ → Prop}
    {l : List γ} {s : σ}
    (h : ∀ done c rest s, l = done ++ c :: rest → I done s →
      ∃ t, f s c = .ok t ∧ I (done ++ [c]) t)
    (hs : I [] s) : ∃ t, l.foldlM f s = .ok t ∧ I l t := by
  rcases foldlM_rounds (E := fun _ => False)
    (fun done c rest s hl hI => .inl (h done c rest s hl hI)) hs with h | ⟨_, _, h⟩
  · exact h
  · exact h.elim

end DnServer.Lib.Handler
