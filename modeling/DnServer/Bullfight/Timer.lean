import DnServer.Lib.Table

/-!
# Timers

From `timer.lua` and the timer part of `bfgame.lua`. A timer object counts the
times it was removed (`session`); starting it schedules a timeout that remembers
the session, and a timeout that comes due does something only if the session is
still the same. Starting a timer twice leaves two timeouts, both live.

When a timeout comes due is left open: any scheduled one may be the next.
-/

namespace DnServer.Bullfight

open DnServer.Lib

/-- A scheduled timeout: its timer, the session it was started in, and the time
it was started for. -/
structure Timeout (ι : Type*) where
  timerid : ι
  session : ℕ
  ti : ℕ
deriving DecidableEq, Repr

/-- The timer objects of one game, each with its session, and the timeouts
scheduled through them. -/
structure Timers (ι : Type*) [DecidableEq ι] where
  objs : Table ι ℕ
  pending : List (Timeout ι)
  created : ∀ p ∈ pending, ∃ s, objs.get? p.timerid = some s ∧ p.session ≤ s

namespace Timers

variable {ι : Type*} [DecidableEq ι]

def new : Timers ι := ⟨.empty, [], by simp⟩

/-- Session of a timer, 0 before its object exists. -/
def sessionOf (t : Timers ι) (i : ι) : ℕ := (t.objs.get? i).getD 0

/-- `AddTimer`: the object is made if need be, and a timeout scheduled in the
current session. -/
def start (t : Timers ι) (i : ι) (ti : ℕ) : Timers ι where
  objs := if i ∈ t.objs then t.objs else t.objs.set i 0
  pending := t.pending ++ [⟨i, t.sessionOf i, ti⟩]
  created := by
    intro p hp
    by_cases hi : i ∈ t.objs
    · rw [if_pos hi]
      rcases List.mem_append.mp hp with h | h
      · exact t.created p h
      · obtain ⟨s, hs⟩ := Table.mem_iff_get?.mp hi
        obtain rfl := List.mem_singleton.mp h
        exact ⟨s, hs, by simp [sessionOf, hs]⟩
    · rw [if_neg hi]
      rcases List.mem_append.mp hp with h | h
      · obtain ⟨s, hs, hle⟩ := t.created p h
        have hne : p.timerid ≠ i := fun he => hi (he ▸ Table.mem_of_get? hs)
        exact ⟨s, by rw [Table.get?_set_ne _ _ hne, hs], hle⟩
      · obtain rfl := List.mem_singleton.mp h
        exact ⟨0, by simp, by simp [sessionOf, Table.get?_eq_none.mpr hi]⟩

/-- `RemoveTimer` with a timer id. -/
def remove (t : Timers ι) (i : ι) : Timers ι where
  objs := t.objs.modify i (· + 1)
  pending := t.pending
  created := by
    intro p hp
    obtain ⟨s, hs, hle⟩ := t.created p hp
    by_cases hi : p.timerid = i
    · exact ⟨s + 1, by rw [hi, Table.get?_modify_self, ← hi, hs]; rfl, by omega⟩
    · exact ⟨s, by rw [Table.get?_modify_ne _ _ hi, hs], hle⟩

/-- `RemoveTimer` without one: every timer. -/
def removeAll (t : Timers ι) : Timers ι where
  objs := t.objs.mapVal fun _ s => s + 1
  pending := t.pending
  created := by
    intro p hp
    obtain ⟨s, hs, hle⟩ := t.created p hp
    exact ⟨s + 1, by rw [Table.get?_mapVal, hs]; rfl, by omega⟩

/-- Timeout number `n` comes due and leaves the schedule. -/
def pop (t : Timers ι) (n : ℕ) : Timers ι where
  objs := t.objs
  pending := t.pending.eraseIdx n
  created p hp := t.created p (List.mem_of_mem_eraseIdx hp)

/-- Is the timer still in the session the timeout was started in? -/
def isLive (t : Timers ι) (p : Timeout ι) : Bool := p.session = t.sessionOf p.timerid

/-- How many scheduled timeouts of timer `i` will do something. -/
def live (t : Timers ι) (i : ι) : ℕ :=
  t.pending.countP fun p => p.timerid = i ∧ t.isLive p

/-! ## Counting live timeouts -/

theorem sessionOf_start (t : Timers ι) (i j : ι) (ti : ℕ) :
    (t.start i ti).sessionOf j = t.sessionOf j := by
  unfold sessionOf start
  by_cases hi : i ∈ t.objs
  · simp only [if_pos hi]
  · simp only [if_neg hi, Table.get?_set]
    by_cases hj : j = i
    · subst hj
      simp [Table.get?_eq_none.mpr hi]
    · simp [hj]

/-- Starting a timer makes one more timeout of it live. -/
theorem live_start (t : Timers ι) (i j : ι) (ti : ℕ) :
    (t.start i ti).live j = t.live j + if j = i then 1 else 0 := by
  have hlive : ∀ p, (t.start i ti).isLive p = t.isLive p := fun p => by
    simp only [isLive, sessionOf_start]
  have hpend : (t.start i ti).pending = t.pending ++ [⟨i, t.sessionOf i, ti⟩] := rfl
  unfold live
  simp only [hlive, hpend, List.countP_append, List.countP_singleton]
  by_cases hj : j = i
  · simp [hj, isLive]
  · simp [hj, Ne.symm hj]

/-- Removing a timer leaves none of its timeouts live, and the others alone. -/
theorem live_remove (t : Timers ι) (i j : ι) :
    (t.remove i).live j = if j = i then 0 else t.live j := by
  unfold live
  by_cases hj : j = i
  · subst hj
    rw [if_pos rfl, List.countP_eq_zero]
    intro p hp
    obtain ⟨s, hs, hle⟩ := t.created p hp
    simp only [decide_eq_true_eq, not_and, isLive]
    rintro rfl
    have hse : (t.remove p.timerid).sessionOf p.timerid = s + 1 := by
      simp [sessionOf, remove, hs]
    omega
  · rw [if_neg hj]
    refine List.countP_congr fun p _ => ?_
    by_cases hp : p.timerid = j
    · have hse : (t.remove i).sessionOf p.timerid = t.sessionOf p.timerid := by
        simp only [sessionOf, remove]
        rw [Table.get?_modify_ne _ _ (by rw [hp]; exact hj)]
      simp [isLive, hse]
    · simp [hp]

@[simp] theorem live_removeAll (t : Timers ι) (j : ι) : t.removeAll.live j = 0 := by
  unfold live
  rw [List.countP_eq_zero]
  intro p hp
  obtain ⟨s, hs, hle⟩ := t.created p hp
  have hse : t.removeAll.sessionOf p.timerid = s + 1 := by
    simp [sessionOf, removeAll, hs]
  simp only [decide_eq_true_eq, not_and, isLive]
  omega

private theorem countP_eraseIdx {α : Type*} (P : α → Bool) :
    ∀ (l : List α) (n : ℕ), (l.eraseIdx n).countP P + (l[n]?.elim 0 fun a => if P a then 1 else 0)
      = l.countP P
  | [], n => by simp
  | a :: rest, 0 => by simp [List.countP_cons]
  | a :: rest, n + 1 => by
    have ih := countP_eraseIdx P rest n
    simp only [List.eraseIdx_cons_succ, List.countP_cons, List.getElem?_cons_succ]
    omega

/-- A live timeout that comes due is one live timeout less. -/
theorem live_pop {t : Timers ι} {n : ℕ} {p : Timeout ι} (h : t.pending[n]? = some p) (j : ι) :
    (t.pop n).live j + (if j = p.timerid ∧ t.isLive p then 1 else 0) = t.live j := by
  have hcount := countP_eraseIdx (fun p => decide (p.timerid = j ∧ t.isLive p)) t.pending n
  rw [h] at hcount
  have hcomm : (p.timerid = j ∧ t.isLive p) ↔ (j = p.timerid ∧ t.isLive p) := by
    rw [eq_comm]
  simp only [Option.elim_some, decide_eq_true_eq, hcomm] at hcount
  exact hcount

end Timers

end DnServer.Bullfight
