import Mathlib

/-!
# Passes over an array in place

The reads and writes of a pass in order. A pass that puts its result where its input
stands is right only if it has read an element before it overwrites it, and does not
read what it has written.
-/

namespace DnServer.Lib

/-- A read of an element with the value it gives, or a write. -/
inductive Access (α : Type*)
  | read (i : ℤ) (v : α)
  | write (i : ℤ) (v : α)

namespace Access

variable {α : Type*}

def index : Access α → ℤ
  | .read i _ => i
  | .write i _ => i

/-- The accesses turn the one array into the other, and the reads give what stands there. -/
def Plays (data : ℤ → α) : List (Access α) → (ℤ → α) → Prop
  | [], data' => data' = data
  | .read i v :: t, data' => data i = v ∧ Plays data t data'
  | .write i v :: t, data' => Plays (Function.update data i v) t data'

/-- With `R` read and `W` written before: an element of the input is overwritten only when it has
been read, and nothing is read that has been written. -/
def InPlace (input : ℤ → Prop) : (ℤ → Prop) → (ℤ → Prop) → List (Access α) → Prop
  | _, _, [] => True
  | R, W, .read i _ :: t => ¬ W i ∧ InPlace input (fun j => R j ∨ j = i) W t
  | R, W, .write i _ :: t => (input i → R i) ∧ InPlace input R (fun j => W j ∨ j = i) t

variable {data data₁ data₂ : ℤ → α} {t t' : List (Access α)}

theorem Plays.append (h : Plays data t data₁) (h' : Plays data₁ t' data₂) :
    Plays data (t ++ t') data₂ := by
  induction t generalizing data with
  | nil =>
    obtain rfl := h
    exact h'
  | cons a t ih =>
    cases a with
    | read i v => exact ⟨h.1, ih h.2⟩
    | write i v => exact ih h

/-! ## Cursors -/

/-- Everything from `k` to the end of the input has been read, and nothing is written below. -/
structure Downward (input : ℤ → Prop) (k : ℤ) (R W : ℤ → Prop) : Prop where
  read : ∀ i, k ≤ i → input i → R i
  written : ∀ i, W i → k ≤ i

/-- Everything of the input below `k` has been read, and nothing is written from there on. -/
structure Upward (input : ℤ → Prop) (k : ℤ) (R W : ℤ → Prop) : Prop where
  read : ∀ i, i < k → input i → R i
  written : ∀ i, W i → i < k

variable {input R W : ℤ → Prop} {k i : ℤ}

/-- The element below the cursor is read. -/
theorem Downward.next (h : Downward input (k + 1) R W) :
    ¬ W k ∧ Downward input k (fun j => R j ∨ j = k) W := by
  refine ⟨fun hk => ?_, fun j hj hin => ?_, fun j hj => ?_⟩
  · have := h.written k hk
    omega
  · by_cases heq : j = k
    · exact .inr heq
    · exact .inl (h.read j (by omega) hin)
  · have := h.written j hj
    omega

/-- It may be read again, as long as it is not written. -/
theorem Downward.again (h : Downward input k R W) (i : ℤ) :
    Downward input k (fun j => R j ∨ j = i) W :=
  ⟨fun j hj hin => .inl (h.read j hj hin), h.written⟩

theorem Downward.put (h : Downward input k R W) (hi : k ≤ i) :
    (input i → R i) ∧ Downward input k R fun j => W j ∨ j = i := by
  refine ⟨h.read i hi, h.read, fun j hj => ?_⟩
  rcases hj with hj | rfl
  · exact h.written j hj
  · exact hi

theorem Upward.next (h : Upward input k R W) :
    ¬ W k ∧ Upward input (k + 1) (fun j => R j ∨ j = k) W := by
  refine ⟨fun hk => ?_, fun j hj hin => ?_, fun j hj => ?_⟩
  · have := h.written k hk
    omega
  · by_cases heq : j = k
    · exact .inr heq
    · exact .inl (h.read j (by omega) hin)
  · have := h.written j hj
    omega

theorem Upward.again (h : Upward input k R W) (i : ℤ) :
    Upward input k (fun j => R j ∨ j = i) W :=
  ⟨fun j hj hin => .inl (h.read j hj hin), h.written⟩

theorem Upward.put (h : Upward input k R W) (hi : i < k) :
    (input i → R i) ∧ Upward input k R fun j => W j ∨ j = i := by
  refine ⟨h.read i hi, h.read, fun j hj => ?_⟩
  rcases hj with hj | rfl
  · exact h.written j hj
  · exact hi

end Access

end DnServer.Lib
