import DnServer.Lib.Coroutine

/-!
# What a handler writes, sends and asks

`Rules` say which writes, messages and questions a handler is let have; `Within` that it keeps
to them whatever it is answered and whatever the others do meanwhile. It follows the handler's
text, so there is one rule for each way a handler is put together, and a handler that keeps to
strict rules keeps to all laxer ones.
-/

namespace DnServer.Lib

variable {σ μ ι : Type} {ρ : ι → Type} {α β : Type}

namespace Co

/-- What a handler is let do. -/
structure Rules (σ μ ι : Type) where
  /-- A write leads from a state to one of these. -/
  write : σ → σ → Prop
  send : μ → Prop
  ask : ι → Prop

/-- Rules for the writes alone. -/
def Rules.writes (R : σ → σ → Prop) : Rules σ μ ι := ⟨R, fun _ => True, fun _ => True⟩

/-- The handler keeps to the rules from `s` on; where it ends `Q` holds. -/
def Within (R : Rules σ μ ι) : Co σ μ ι ρ α → (α → σ → Prop) → σ → Prop
  | .done a, Q, s => Q a s
  | .raised, _, _ => True
  | .exited, _, _ => True
  | .get k, Q, s => (k s).Within R Q s
  | .put u k, Q, s => R.write s u ∧ k.Within R Q u
  | .send m k, Q, s => R.send m ∧ k.Within R Q s
  | .call i k, Q, _ => R.ask i ∧ ∀ r u, (k r).Within R Q u
  | .block i k, Q, s => R.ask i ∧ ∀ r, (k r).Within R Q s

section Rules

variable {R R' : Rules σ μ ι} {Q Q' : α → σ → Prop} {s : σ}

@[simp] theorem writes_write {W : σ → σ → Prop} {s t : σ} :
    (Rules.writes W : Rules σ μ ι).write s t ↔ W s t := Iff.rfl

@[simp] theorem writes_send {W : σ → σ → Prop} (m : μ) :
    (Rules.writes W : Rules σ μ ι).send m ↔ True := Iff.rfl

@[simp] theorem within_bind (c : Co σ μ ι ρ α) (f : α → Co σ μ ι ρ β) (Q : β → σ → Prop) (s : σ) :
    (c >>= f).Within R Q s ↔ c.Within R (fun a t => (f a).Within R Q t) s := by
  show (c.bind f).Within R Q s ↔ _
  induction c generalizing s with
  | done a => exact Iff.rfl
  | raised => exact Iff.rfl
  | exited => exact Iff.rfl
  | get k ih => exact ih s s
  | put u k ih => exact and_congr_right fun _ => ih u
  | send m k ih => exact and_congr_right fun _ => ih s
  | call i k ih =>
    exact and_congr_right fun _ => forall_congr' fun r => forall_congr' fun u => ih r u
  | block i k ih => exact and_congr_right fun _ => forall_congr' fun r => ih r s

@[simp] theorem within_pure (a : α) : (pure a : Co σ μ ι ρ α).Within R Q s ↔ Q a s := Iff.rfl

@[simp] theorem within_raise : (raise : Co σ μ ι ρ α).Within R Q s ↔ True := Iff.rfl

@[simp] theorem within_exit : (exit : Co σ μ ι ρ α).Within R Q s ↔ True := Iff.rfl

@[simp] theorem within_read {Q : σ → σ → Prop} :
    (read : Co σ μ ι ρ σ).Within R Q s ↔ Q s s := Iff.rfl

@[simp] theorem within_write {Q : Unit → σ → Prop} (f : σ → σ) :
    (write f : Co σ μ ι ρ Unit).Within R Q s ↔ R.write s (f s) ∧ Q () (f s) := Iff.rfl

@[simp] theorem within_tell {Q : Unit → σ → Prop} (m : μ) :
    (tell m : Co σ μ ι ρ Unit).Within R Q s ↔ R.send m ∧ Q () s := Iff.rfl

@[simp] theorem within_await (i : ι) {Q : ρ i → σ → Prop} :
    (await i : Co σ μ ι ρ (ρ i)).Within R Q s ↔ R.ask i ∧ ∀ r u, Q r u := Iff.rfl

@[simp] theorem within_hold (i : ι) {Q : ρ i → σ → Prop} :
    (hold i : Co σ μ ι ρ (ρ i)).Within R Q s ↔ R.ask i ∧ ∀ r, Q r s := Iff.rfl

@[simp] theorem within_need (x : Option α) :
    (need x : Co σ μ ι ρ α).Within R Q s ↔ ∀ a, x = some a → Q a s := by
  cases x with
  | none => exact iff_of_true trivial fun a ha => absurd ha (Option.some_ne_none a).symm
  | some a => exact ⟨fun h b hb => Option.some.inj hb ▸ h, fun h => h a rfl⟩

@[simp] theorem within_ite {p : Prop} [Decidable p] {c d : Co σ μ ι ρ α} :
    (if p then c else d).Within R Q s ↔
      (p → c.Within R Q s) ∧ (¬p → d.Within R Q s) := by
  by_cases hp : p
  · rw [if_pos hp]
    exact ⟨fun h => ⟨fun _ => h, fun hn => absurd hp hn⟩, fun h => h.1 hp⟩
  · rw [if_neg hp]
    exact ⟨fun h => ⟨fun hp' => absurd hp' hp, fun _ => h⟩, fun h => h.2 hp⟩

/-- What `R` allows `R'` allows. -/
structure Rules.Under (R R' : Rules σ μ ι) : Prop where
  write : ∀ s t, R.write s t → R'.write s t
  send : ∀ m, R.send m → R'.send m
  ask : ∀ i, R.ask i → R'.ask i

theorem Within.imp (hR : R.Under R') (hQ : ∀ a t, Q a t → Q' a t) {c : Co σ μ ι ρ α}
    (h : c.Within R Q s) : c.Within R' Q' s := by
  induction c generalizing s with
  | done a => exact hQ a s h
  | raised => exact trivial
  | exited => exact trivial
  | get k ih => exact ih s h
  | put u k ih => exact ⟨hR.write _ _ h.1, ih h.2⟩
  | send m k ih => exact ⟨hR.send _ h.1, ih h.2⟩
  | call i k ih => exact ⟨hR.ask _ h.1, fun r u => ih r (h.2 r u)⟩
  | block i k ih => exact ⟨hR.ask _ h.1, fun r => ih r (h.2 r)⟩

theorem Within.mono (hQ : ∀ a t, Q a t → Q' a t) {c : Co σ μ ι ρ α} (h : c.Within R Q s) :
    c.Within R Q' s :=
  h.imp ⟨fun _ _ h => h, fun _ h => h, fun _ h => h⟩ hQ

/-- What is left of the handler at a stop in `t` keeps to the rules. -/
def Stop.Within (R : Rules σ μ ι) (Q : α → σ → Prop) : Stop σ μ ι ρ α → σ → Prop
  | .call i k, _ => R.ask i ∧ ∀ r u, (k r).Within R Q u
  | .block i k, t => R.ask i ∧ ∀ r, (k r).Within R Q t
  | _, _ => True

/-- Up to its next call the handler has made the writes it may, and the rest keeps to the
rules. -/
theorem Within.advance (hrefl : ∀ s, R.write s s)
    (htrans : ∀ s t u, R.write s t → R.write t u → R.write s u)
    {c : Co σ μ ι ρ α} {s : σ} (h : c.Within R Q s) :
    R.write s (c.advance s).2 ∧ (c.advance s).1.Within R Q (c.advance s).2 := by
  induction c generalizing s with
  | done a => exact ⟨hrefl s, trivial⟩
  | raised => exact ⟨hrefl s, trivial⟩
  | exited => exact ⟨hrefl s, trivial⟩
  | get k ih => exact ih s h
  | put u k ih =>
    obtain ⟨hR, hrest⟩ := ih h.2
    exact ⟨htrans _ _ _ h.1 hR, hrest⟩
  | send m k ih => exact ih h.2
  | call i k => exact ⟨hrefl s, h⟩
  | block i k => exact ⟨hrefl s, h⟩

end Rules

end Co

end DnServer.Lib
