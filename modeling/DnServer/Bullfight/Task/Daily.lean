import DnServer.Bullfight.Task.State

/-!
# Daily tasks: how often a day

`noteAnswers` keeps the commands that were answered with success. Each of them
should raise the number in the day's row. It does where the command reads the rows
of the day it writes; a task that is read on one day and written on another is
answered with success without end.

* `Counted.step`: each success raises the number in the day's row, and no row's number
  is above the count of its task.
* `cap_of_counts`: the successes of a day are at most that number; `play_5_uncapped` has
  none, since a row of the day before is read and none of the new day is there to be
  written.
-/

namespace DnServer.Bullfight

open DnServer.Lib

namespace Task

/-! ## Commands and answers -/

inductive Event
  | complete (msg : Msg) (env : Env)
deriving DecidableEq

def exec (rows : List Row) : Event → Option (List Row)
  | .complete msg env => some (completeTask env rows msg).1

/-- The table, empty at first. -/
def system : TSys (List Row) Event where
  init rows := rows = []
  step rows e rows' := exec rows e = some rows'

theorem exec_step (rows : List Row) (e : Event) (rows' : List Row) (h : exec rows e = some rows') :
    system.step rows e rows' := h

/-- A player, a task and a day. -/
abbrev Key := Uid × TaskId × Date

def Row.key (r : Row) : Key := (r.uid, r.taskid, r.date)

/-- The player and the task of a command, and the day it is served. -/
def keyOf (msg : Msg) (env : Env) : Key := (msg.uid, msg.taskid, env.date)

/-- A command answered with success is noted. -/
def noteAnswers (rows : List Row) (e : Event) (_rows' : List Row) (answers : List Key) : List Key :=
  match e with
  | .complete msg env =>
    if (completeTask env rows msg).2.any fun r => r.1 then keyOf msg env :: answers else answers

/-- The table with a note of the successes. -/
def daily : TSys (List Row × List Key) Event := system.observe (fun _ => []) noteAnswers

/-- No task with a count is answered with success more often than that on one day. -/
def Cap (p : List Row × List Key) : Prop :=
  ∀ uid taskid date c, count taskid = some c → p.2.count (uid, taskid, date) ≤ c

/-- The rows of a player's task on a day. -/
def rowsOf (rows : List Row) (k : Key) : List Row := rows.filter fun r => r.key = k

/-- A command that the table allows counts on the day's row: where it reads none there
is none, and where it reads one with room for more there is one for the day, which is
not ahead of it. -/
def Counts (p : List Row × List Key) : Event → Prop
  | .complete msg env => env.query = true → env.exec = true →
      (first env.pick (selected p.1 msg) = none → rowsOf p.1 (keyOf msg env) = []) ∧
      ∀ row ∈ first env.pick (selected p.1 msg), ¬ (IsCourse msg.taskid ∧ env.date = row.date) →
        (count msg.taskid).any (row.num < ·) = true →
        rowsOf p.1 (keyOf msg env) ≠ [] ∧ ∀ r ∈ rowsOf p.1 (keyOf msg env), r.num ≤ row.num

instance (p : List Row × List Key) (e : Event) : Decidable (Counts p e) :=
  match e with
  | .complete _ _ => inferInstanceAs (Decidable (_ → _ → _))

/-! ## The cap -/

/-- What a command does to the table and how it is answered. -/
inductive TaskCase (env : Env) (rows : List Row) (msg : Msg) : List Row × Option (Bool × ℕ) → Prop
  | no (answer : Option (Bool × ℕ)) : answer.any (fun r => r.1) = false →
      TaskCase env rows msg (rows, answer)
  | insert : env.query = true → env.exec = true → first env.pick (selected rows msg) = none →
      TaskCase env rows msg
        (rows ++ [⟨msg.uid, msg.taskid, 1, env.date, msg.pfid⟩], some (true, 1))
  | update (row : Row) : env.query = true → env.exec = true →
      first env.pick (selected rows msg) = some row →
      ¬ (IsCourse msg.taskid ∧ env.date = row.date) → (count msg.taskid).any (row.num < ·) = true →
      TaskCase env rows msg
        (rows.map fun r => if r.date = env.date ∧ r.uid = msg.uid ∧ r.taskid = msg.taskid then
            { r with num := row.num + 1 } else r,
          some (true, row.num + 1))

theorem completeTask_case (env : Env) (rows : List Row) (msg : Msg) :
    TaskCase env rows msg (completeTask env rows msg) := by
  unfold completeTask verdict
  by_cases hquery : env.query = true
  · rw [if_pos hquery]
    cases hfirst : first env.pick (selected rows msg) with
    | none =>
      show TaskCase env rows msg (if env.exec then _ else _)
      by_cases hexec : env.exec = true
      · rw [if_pos hexec]
        exact .insert hquery hexec hfirst
      · rw [if_neg hexec]
        exact .no _ rfl
    | some row =>
      by_cases hcourse : IsCourse msg.taskid ∧ env.date = row.date
      · simp only [if_pos hcourse]
        exact .no _ rfl
      · simp only [if_neg hcourse]
        unfold compareCount
        cases hcount : count msg.taskid with
        | none => exact .no _ rfl
        | some c =>
          by_cases hroom : row.num < c
          · simp only [if_pos hroom]
            by_cases hexec : env.exec = true
            · rw [if_pos hexec]
              exact .update row hquery hexec hfirst hcourse (by rw [hcount]; simpa using hroom)
            · rw [if_neg hexec]
              exact .no _ rfl
          · simp only [if_neg hroom]
            exact .no _ rfl
  · rw [if_neg hquery]
    exact .no _ rfl

/-- Every success of a day is counted in the day's row, and no row's number is above
the count. -/
structure Counted (p : List Row × List Key) : Prop where
  answers : ∀ k, p.2.count k ≠ 0 → ∃ r ∈ rowsOf p.1 k, p.2.count k ≤ r.num
  bounded : ∀ r ∈ p.1, ∀ c, count r.taskid = some c → r.num ≤ c

theorem Counted.cap {p : List Row × List Key} (h : Counted p) : Cap p := by
  intro uid taskid date c hc
  by_cases hzero : p.2.count (uid, taskid, date) = 0
  · omega
  · obtain ⟨r, hr, hle⟩ := h.answers _ hzero
    obtain ⟨hmem, hkey⟩ := List.mem_filter.mp hr
    have hkey : r.key = (uid, taskid, date) := of_decide_eq_true hkey
    have htask : r.taskid = taskid := congrArg (fun k : Key => k.2.1) hkey
    exact hle.trans (h.bounded r hmem c (htask ▸ hc))

/-- One more success of the day whose row is inserted. -/
theorem Counted.insert {p : List Row × List Key} (h : Counted p) {row : Row} (hnum : row.num = 1)
    (hnone : rowsOf p.1 row.key = []) : Counted (p.1 ++ [row], row.key :: p.2) := by
  constructor
  · intro k hk
    by_cases hkey : k = row.key
    · subst hkey
      refine ⟨row, by simp [rowsOf], ?_⟩
      -- without a row there was no success yet
      have hzero : p.2.count row.key = 0 := by
        by_contra hne
        obtain ⟨r, hr, _⟩ := h.answers row.key hne
        rw [hnone] at hr
        cases hr
      show (row.key :: p.2).count row.key ≤ row.num
      rw [List.count_cons_self, hzero, hnum]
    · have hcount : (row.key :: p.2).count k = p.2.count k :=
        List.count_cons_of_ne (fun h => hkey h.symm)
      obtain ⟨r, hr, hle⟩ := h.answers k (hcount ▸ hk)
      refine ⟨r, ?_, hcount.le.trans hle⟩
      unfold rowsOf
      rw [List.filter_append]
      exact List.mem_append_left _ hr
  · intro r hr c hc
    rcases List.mem_append.mp hr with hold | hnew
    · exact h.bounded r hold c hc
    · rw [List.mem_singleton.mp hnew, hnum]
      exact one_le_count hc

/-- One more success of the day whose row's number is raised. -/
theorem Counted.update {p : List Row × List Key} (h : Counted p) {k : Key} {n c : ℕ}
    (hc : count k.2.1 = some c) (hn : n < c) (hsome : rowsOf p.1 k ≠ [])
    (hle : ∀ r ∈ rowsOf p.1 k, r.num ≤ n) :
    Counted (p.1.map fun r => if r.key = k then { r with num := n + 1 } else r, k :: p.2) := by
  constructor
  · intro k' hk'
    by_cases hkey : k' = k
    · subst hkey
      obtain ⟨r, hr⟩ := List.exists_mem_of_ne_nil _ hsome
      obtain ⟨hmem, hrk⟩ := List.mem_filter.mp hr
      have hrk : r.key = k' := of_decide_eq_true hrk
      refine ⟨{ r with num := n + 1 }, ?_, ?_⟩
      · refine List.mem_filter.mpr ⟨List.mem_map.mpr ⟨r, hmem, if_pos hrk⟩, ?_⟩
        exact decide_eq_true hrk
      · -- the successes so far are at most the number that was read
        show (k' :: p.2).count k' ≤ n + 1
        rw [List.count_cons_self]
        by_cases hzero : p.2.count k' = 0
        · omega
        · obtain ⟨r', hr', hle'⟩ := h.answers k' hzero
          have := hle r' hr'
          omega
    · have hcount : (k :: p.2).count k' = p.2.count k' :=
        List.count_cons_of_ne (fun h => hkey h.symm)
      obtain ⟨r, hr, hrle⟩ := h.answers k' (hcount ▸ hk')
      obtain ⟨hmem, hrk⟩ := List.mem_filter.mp hr
      have hrk : r.key = k' := of_decide_eq_true hrk
      refine ⟨r, List.mem_filter.mpr ⟨List.mem_map.mpr ⟨r, hmem, ?_⟩, decide_eq_true hrk⟩,
        hcount.le.trans hrle⟩
      exact if_neg fun h => hkey (hrk.symm.trans h)
  · intro r hr c' hc'
    obtain ⟨r', hr', rfl⟩ := List.mem_map.mp hr
    by_cases hkey : r'.key = k
    · rw [if_pos hkey] at hc' ⊢
      have htask : r'.taskid = k.2.1 := congrArg (fun k : Key => k.2.1) hkey
      have hc' : count r'.taskid = some c' := hc'
      rw [htask, hc] at hc'
      obtain rfl := Option.some.inj hc'
      exact hn
    · rw [if_neg hkey] at hc' ⊢
      exact h.bounded r' hr' c' hc'

theorem Counted.step {p q : List Row × List Key} {e : Event} (h : Counted p) (hcounts : Counts p e)
    (hstep : daily.step p e q) : Counted q := by
  obtain ⟨msg, env⟩ := e
  obtain ⟨hexec, hnote⟩ := hstep
  replace hexec : (completeTask env p.1 msg).1 = q.1 := Option.some.inj hexec
  replace hnote : q.2 = if (completeTask env p.1 msg).2.any (fun r => r.1) = true then
    keyOf msg env :: p.2 else p.2 := hnote
  obtain ⟨rows, answers⟩ := q
  have hcase := completeTask_case env p.1 msg
  generalize completeTask env p.1 msg = r at hcase hexec hnote
  cases hcase with
  | no answer hanswer =>
    simp only [hanswer] at hexec hnote
    subst hexec
    subst hnote
    exact h
  | insert hquery hexec' hfirst =>
    subst hexec
    subst hnote
    exact h.insert rfl ((hcounts hquery hexec').1 hfirst)
  | update row hquery hexec' hfirst hcourse hroom =>
    subst hexec
    subst hnote
    obtain ⟨c, hc, hlt⟩ := (Option.any_eq_true _ _).mp hroom
    obtain ⟨hsome, hle⟩ := (hcounts hquery hexec').2 row hfirst hcourse hroom
    have hupdate := h.update (k := keyOf msg env) hc (of_decide_eq_true hlt) hsome hle
    have hmap : (fun r : Row => if r.key = keyOf msg env then { r with num := row.num + 1 } else r) =
        fun r => if r.date = env.date ∧ r.uid = msg.uid ∧ r.taskid = msg.taskid then
          { r with num := row.num + 1 } else r := by
      funext r
      refine if_congr ?_ rfl rfl
      unfold Row.key keyOf
      rw [Prod.mk.injEq, Prod.mk.injEq]
      tauto
    rw [hmap] at hupdate
    exact hupdate

theorem counted {p : List Row × List Key} (hp : (daily.restrict Counts).Reachable p) : Counted p := by
  induction hp with
  | @init p hinit =>
    obtain ⟨hrows, hanswers⟩ := hinit
    constructor
    · intro k hk
      rw [hanswers] at hk
      exact absurd rfl hk
    · rw [hrows]
      nofun
  | step _ hstep ih => exact ih.step hstep.1 hstep.2

/-- In a run in which every command that the table allows counts on the day's row, no
task is answered with success more often than its count on a day. -/
theorem cap_of_counts {p : List Row × List Key} (hp : (daily.restrict Counts).Reachable p) : Cap p :=
  (counted hp).cap

/-- Player 7 completes task `taskid` on day `date`, and the command says so. -/
def completing (taskid : TaskId) (date : Date) : Event :=
  .complete ⟨7, taskid, date, 0⟩ ⟨date, true, true, 0⟩

/-- Task 1100 has a count of 2, and the third command of the day is refused. -/
theorem cap_of_counts_protect :
    ∃ p, p.2.count (7, 1100, 20140801) = 2 ∧ p.1.length = 1 ∧ Cap p := by
  obtain ⟨p, hp, hanswers⟩ := TSys.reachable_of_exec
    (TSys.restrictExec_step (C := Counts) (T := daily) (TSys.observeExec_step exec_step))
    (s := ([], [])) (l := List.replicate 3 (completing 1100 20140801))
    (p := fun p => p.2.count (7, 1100, 20140801) == 2 && p.1.length == 1) ⟨rfl, rfl⟩
    (by decide +kernel)
  rw [Bool.and_eq_true, beq_iff_eq, beq_iff_eq] at hanswers
  exact ⟨p, hanswers.1, hanswers.2, cap_of_counts hp⟩

/-- The day after its first success, task `play_5` succeeds eight times, its count
being 7: the update looks for a row of the new day, and there is none. -/
theorem play_5_uncapped : ∃ p, daily.Reachable p ∧ ¬ Cap p := by
  obtain ⟨p, hp, hanswers⟩ := TSys.reachable_of_exec
    (T := daily) (TSys.observeExec_step exec_step) (s := ([], []))
    (l := completing id.play_5 20140801 :: List.replicate 8 (completing id.play_5 20140802))
    (p := fun p => p.2.count (7, id.play_5, 20140802) == 8) ⟨rfl, rfl⟩ (by decide +kernel)
  refine ⟨p, hp, fun hcap => ?_⟩
  have hle := hcap 7 id.play_5 20140802 7 rfl
  rw [beq_iff_eq.mp hanswers] at hle
  omega

end Task

end DnServer.Bullfight
