import DnServer.Lib.Transition
import DnServer.Skynet.Timer.Wheel

/-!
# The timer thread

`timer_update` step by step, among additions by any thread: what it does under one
lock is one step, and messages are pushed with the lock released. A record of what
was added and what was dispatched is kept beside it.

* `timers_exact`: every node is in the slot that its time and the wheel's say
  (`Represents`), which an addition, a tick and each cascade keep.
-/

namespace DnServer.Skynet

open DnServer.Lib

/-- Where the timer thread stands in `timer_update`; the second `timer_execute` is the one behind
`timer_shift`. -/
inductive TimerPc
  | idle
  /-- At the head of the loop of `timer_execute`. -/
  | executing (second : Bool) (idx : ℕ)
  /-- In `dispatch_list`. -/
  | dispatching (second : Bool) (idx : ℕ) (current : List TimerNode)
  /-- Before `timer_shift`. -/
  | shifting
  deriving DecidableEq, Repr

structure TimerThread where
  T : Timer
  pc : TimerPc

/-- A thread calls `timer_add`, or the timer thread goes on. -/
inductive TimerEv
  | add (handle : ℕ) (session : ℤ) (time : ℕ)
  | step
  deriving DecidableEq, Repr

/-- What was added, and what was dispatched with the time then. -/
structure TimerLog where
  added : List TimerNode
  dispatched : List (TimerNode × ℕ)

namespace TimerThread

/-- One step; none where an `int` overflows. -/
def exec (s : TimerThread) : TimerEv → Option TimerThread
  | .add handle session time =>
    if 1 ≤ time ∧ time + s.T.time < INT_MAX_1 then
      some { s with T := s.T.timer_add handle session time }
    else none
  | .step =>
    match s.pc with
    | .idle => some { s with pc := .executing false (s.T.time &&& TIME_NEAR_MASK) }
    | .executing second idx =>
      if s.T.list (.near idx) ≠ [] then
        some ⟨s.T.link_clear (.near idx), .dispatching second idx (s.T.list (.near idx))⟩
      else some { s with pc := if second then .idle else .shifting }
    | .dispatching second idx [] => some { s with pc := .executing second idx }
    | .dispatching second idx (_ :: rest) => some { s with pc := .dispatching second idx rest }
    | .shifting =>
      if s.T.time + 1 < INT_MAX_1 then
        some ⟨s.T.timer_shift, .executing true (s.T.timer_shift.time &&& TIME_NEAR_MASK)⟩
      else none

/-- What a step adds to the record. -/
def note (s : TimerThread) (e : TimerEv) (_ : TimerThread) (r : TimerLog) : TimerLog :=
  match e, s.pc with
  | .add handle session time, _ => { r with added := r.added ++ [⟨handle, session, time + s.T.time⟩] }
  | .step, .dispatching _ _ (n :: _) => { r with dispatched := r.dispatched ++ [(n, s.T.time)] }
  | .step, _ => r

def system : TSys TimerThread TimerEv where
  init s := s = ⟨.create, .idle⟩
  step s e t := s.exec e = some t

def timers : TSys (TimerThread × TimerLog) TimerEv := system.observe (fun _ => ⟨[], []⟩) note

/-- The update that has moved the time on is not over. -/
def updating (s : TimerThread) : Bool :=
  match s.pc with
  | .executing second _ => second
  | .dispatching second _ _ => second
  | _ => false

/-- Every timer is dispatched at its expiry and once, as often as it was added; none that is due
later, and all that were due when the update is over. No list outside the arrays is used. -/
structure Exact (s : TimerThread) (r : TimerLog) : Prop where
  on_time : ∀ d ∈ r.dispatched, d.2 = d.1.expire
  once : ∀ n, (r.dispatched.map Prod.fst).count n ≤ r.added.count n
  early : ∀ n, s.T.time < n.expire → n ∉ r.dispatched.map Prod.fst
  due : ∀ n : TimerNode, n.expire < s.T.time ∨ n.expire = s.T.time ∧ s.updating = false →
    (r.dispatched.map Prod.fst).count n = r.added.count n
  inside : ∀ slot, s.T.list slot ≠ [] → slot.Inside

/-! ## The invariant -/

/-- The list that is being dispatched. -/
def current (s : TimerThread) : List TimerNode :=
  match s.pc with
  | .dispatching _ _ current => current
  | _ => []

/-- `idx` is the list of the tick. -/
def AtTick (s : TimerThread) : Prop :=
  match s.pc with
  | .executing _ idx => idx = s.T.time % 256
  | .dispatching _ idx _ => idx = s.T.time % 256
  | _ => True

/-- What was added is dispatched, about to be, or pending in the wheel. -/
structure Keeps (s : TimerThread) (r : TimerLog) (pending : Multiset TimerNode) : Prop where
  wheel : s.T.Represents pending
  total : (r.added : Multiset TimerNode) = r.dispatched.map Prod.fst + s.current + pending
  on_time : ∀ d ∈ r.dispatched, d.2 = d.1.expire ∧ d.1.expire ≤ s.T.time
  now : ∀ n ∈ s.current, n.expire = s.T.time ∧ s.updating = true
  due : ∀ n ∈ pending, s.T.time ≤ n.expire ∧ n.expire < INT_MAX_1
  later : s.updating = false → ∀ n ∈ pending, s.T.time < n.expire
  tick : s.AtTick

variable {s t : TimerThread} {r : TimerLog} {pending : Multiset TimerNode} {e : TimerEv}

theorem keeps_create : Keeps ⟨.create, .idle⟩ ⟨[], []⟩ 0 where
  wheel := Timer.create_represents
  total := rfl
  on_time := by simp
  now := by simp [current]
  due := by simp
  later := by simp
  tick := trivial

theorem time_mask (n : ℕ) : n &&& TIME_NEAR_MASK = n % 256 := Nat.and_two_pow_sub_one_eq_mod n 8

theorem Keeps.add {handle time : ℕ} {session : ℤ} (h : s.Keeps r pending) (ht : 1 ≤ time)
    (hmax : time + s.T.time < INT_MAX_1) :
    Keeps { s with T := s.T.timer_add handle session time }
      { r with added := r.added ++ [⟨handle, session, time + s.T.time⟩] }
      (⟨handle, session, time + s.T.time⟩ ::ₘ pending) where
  wheel := h.wheel.add_node _
  total := by
    have htotal := h.total
    show ((r.added ++ [_] : List TimerNode) : Multiset TimerNode) = _ + s.current + _
    rw [← Multiset.coe_add, htotal, Multiset.coe_singleton, add_assoc, Multiset.add_comm pending,
      Multiset.singleton_add]
  on_time := h.on_time
  now := h.now
  due := by
    intro n hn
    rcases Multiset.mem_cons.mp hn with rfl | hn
    · exact ⟨Nat.le_add_left _ _, hmax⟩
    · exact h.due n hn
  later := by
    intro hu n hn
    rcases Multiset.mem_cons.mp hn with rfl | hn
    · show s.T.time < time + s.T.time
      omega
    · exact h.later hu n hn
  tick := h.tick

/-- The list of the tick is taken off: its timers are due now. -/
theorem Keeps.take {second : Bool} {idx : ℕ} (h : s.Keeps r pending)
    (hpc : s.pc = .executing second idx) :
    Keeps ⟨s.T.link_clear (.near idx), .dispatching second idx (s.T.list (.near idx))⟩ r
      (pending - s.T.list (.near idx)) := by
  have htick := h.tick
  unfold AtTick at htick
  rw [hpc] at htick
  obtain ⟨hwheel, hle⟩ := h.wheel.link_clear (s := .near idx)
  have hsub : ∀ n ∈ pending - s.T.list (.near idx), n ∈ pending := fun n hn =>
    Multiset.mem_of_le (Multiset.sub_le_self _ _) hn
  refine ⟨hwheel, ?_, h.on_time, ?_, fun n hn => h.due n (hsub n hn), ?_, htick⟩
  · have htotal := h.total
    have hcurrent : s.current = [] := by
      unfold current
      rw [hpc]
    rw [hcurrent, Multiset.coe_nil, add_zero] at htotal
    show _ = _ + ((s.T.list (.near idx) : List TimerNode) : Multiset TimerNode) + _
    rw [htotal, add_assoc, add_tsub_cancel_of_le hle]
  · intro n hn
    have hplace := h.wheel.place _ n hn
    have hmem : n ∈ pending := (h.wheel.mem n).mpr (hplace ▸ hn)
    rw [htick] at hplace
    have hnow := (Timer.slot_eq_near_iff (h.due n hmem).1).mp hplace.symm
    refine ⟨hnow, ?_⟩
    -- before the shift nothing is due, and the list is empty
    have hupdating : s.updating = true := by
      by_contra hu
      have := h.later (by simpa using hu) n hmem
      omega
    unfold updating at hupdating
    rw [hpc] at hupdating
    exact hupdating
  · intro hu n hn
    refine h.later ?_ n (hsub n hn)
    unfold updating at hu ⊢
    rw [hpc]
    exact hu

/-- The list of the tick is empty: no timer is due now. -/
theorem Keeps.empty {second : Bool} {idx : ℕ} (h : s.Keeps r pending)
    (hpc : s.pc = .executing second idx) (hempty : s.T.list (.near idx) = []) :
    Keeps { s with pc := if second then .idle else .shifting } r pending := by
  have htick := h.tick
  unfold AtTick at htick
  rw [hpc] at htick
  have hcurrent : s.current = [] := by
    unfold current
    rw [hpc]
  have hcurrent' : ({ s with pc := if second then .idle else .shifting } : TimerThread).current = [] := by
    cases second <;> rfl
  refine ⟨h.wheel, ?_, h.on_time, ?_, h.due, ?_, ?_⟩
  · rw [hcurrent', ← hcurrent]
    exact h.total
  · rw [hcurrent']
    intro n hn
    cases hn
  · intro _ n hn
    refine lt_of_le_of_ne (h.due n hn).1 ?_
    intro heq
    have hslot := (Timer.slot_eq_near_iff (h.due n hn).1).mpr heq.symm
    have hmem := (h.wheel.mem n).mp hn
    rw [hslot, ← htick, hempty] at hmem
    cases hmem
  · cases second <;> trivial

theorem Keeps.shift (h : s.Keeps r pending) (hpc : s.pc = .shifting) :
    Keeps ⟨s.T.timer_shift, .executing true (s.T.timer_shift.time &&& TIME_NEAR_MASK)⟩ r pending := by
  have hupdating : s.updating = false := by
    unfold updating
    rw [hpc]
  have hcurrent : s.current = [] := by
    unfold current
    rw [hpc]
  have hlater := h.later hupdating
  obtain ⟨hwheel, htime⟩ := h.wheel.timer_shift hlater fun n hn => (h.due n hn).2
  refine ⟨hwheel, ?_, ?_, ?_, ?_, ?_, time_mask _⟩
  · have htotal := h.total
    rw [hcurrent] at htotal
    exact htotal
  · intro d hd
    obtain ⟨hon, hle⟩ := h.on_time d hd
    refine ⟨hon, ?_⟩
    show d.1.expire ≤ s.T.timer_shift.time
    omega
  · intro n hn
    cases hn
  · intro n hn
    refine ⟨?_, (h.due n hn).2⟩
    show s.T.timer_shift.time ≤ n.expire
    rw [htime]
    exact hlater n hn
  · intro hu
    cases hu

theorem Keeps.exec (h : s.Keeps r pending) (hx : s.exec e = some t) :
    ∃ pending', t.Keeps (s.note e t r) pending' := by
  cases e with
  | add handle session time =>
    unfold TimerThread.exec at hx
    dsimp only at hx
    split at hx
    · rename_i hguard
      obtain rfl := Option.some.inj hx
      exact ⟨_, h.add hguard.1 hguard.2⟩
    · cases hx
  | step =>
    unfold TimerThread.exec at hx
    dsimp only at hx
    unfold note
    -- the thread that updates, by where it stands between two steps
    cases hpc : s.pc with
    | idle =>
      rw [hpc] at hx
      obtain rfl := Option.some.inj hx
      have hcurrent : s.current = [] := by
        unfold current
        rw [hpc]
      have hupdating : s.updating = false := by
        unfold updating
        rw [hpc]
      refine ⟨pending, h.wheel, ?_, h.on_time, ?_, h.due, fun _ => h.later hupdating, time_mask _⟩
      · have htotal := h.total
        rwa [hcurrent] at htotal
      · intro n hn
        cases hn
    | executing second idx =>
      rw [hpc] at hx
      dsimp only at hx
      split at hx
      · obtain rfl := Option.some.inj hx
        exact ⟨_, h.take hpc⟩
      · rename_i hempty
        obtain rfl := Option.some.inj hx
        exact ⟨_, h.empty hpc (not_not.mp hempty)⟩
    | dispatching second idx list =>
      rw [hpc] at hx
      have hcurrent : s.current = list := by
        unfold current
        rw [hpc]
      have hupdating : s.updating = second := by
        unfold updating
        rw [hpc]
      have htick := h.tick
      unfold AtTick at htick
      rw [hpc] at htick
      have htotal := h.total
      have hnow := h.now
      rw [hcurrent] at htotal hnow
      cases list with
      | nil =>
        obtain rfl := Option.some.inj hx
        refine ⟨pending, h.wheel, htotal, h.on_time, ?_, h.due, fun hu => h.later (hupdating.trans hu),
          htick⟩
        intro n hn
        cases hn
      | cons n rest =>
        obtain rfl := Option.some.inj hx
        have hfirst := hnow n (List.mem_cons_self ..)
        refine ⟨pending, h.wheel, ?_, ?_, ?_, h.due, fun hu => h.later (hupdating.trans hu), htick⟩
        · show _ = (((r.dispatched ++ [(n, s.T.time)]).map Prod.fst : List TimerNode) : Multiset TimerNode) +
            (rest : Multiset TimerNode) + pending
          rw [htotal, List.map_append, ← Multiset.coe_add, ← Multiset.cons_coe, ← Multiset.singleton_add,
            ← add_assoc (((r.dispatched.map Prod.fst : List TimerNode) : Multiset TimerNode))]
          rfl
        · intro d hd
          rcases List.mem_append.mp hd with hd | hd
          · exact h.on_time d hd
          · rw [List.mem_singleton.mp hd]
            exact ⟨hfirst.1.symm, hfirst.1.le⟩
        · intro m hm
          obtain ⟨hm, hu⟩ := hnow m (List.mem_cons_of_mem _ hm)
          exact ⟨hm, hupdating.symm.trans hu⟩
    | shifting =>
      rw [hpc] at hx
      dsimp only at hx
      split at hx
      · obtain rfl := Option.some.inj hx
        exact ⟨_, h.shift hpc⟩
      · cases hx

theorem Keeps.exact (h : s.Keeps r pending) : s.Exact r := by
  have hcount : ∀ n, r.added.count n =
      (r.dispatched.map Prod.fst).count n + s.current.count n + pending.count n := by
    intro n
    have htotal := congrArg (Multiset.count n) h.total
    simpa using htotal
  refine ⟨fun d hd => (h.on_time d hd).1, ?_, ?_, ?_, ?_⟩
  · intro n
    rw [hcount]
    omega
  · intro n hn hmem
    obtain ⟨d, hd, rfl⟩ := List.mem_map.mp hmem
    have := (h.on_time d hd).2
    omega
  · intro n hn
    have hpending : pending.count n = 0 := by
      rw [Multiset.count_eq_zero]
      intro hmem
      have hle := (h.due n hmem).1
      rcases hn with hlt | ⟨heq, hu⟩
      · omega
      · have := h.later hu n hmem
        omega
    have hcurrent : s.current.count n = 0 := by
      rw [List.count_eq_zero]
      intro hmem
      obtain ⟨hnow, hupdating⟩ := h.now n hmem
      rcases hn with hlt | ⟨-, hu⟩
      · omega
      · rw [hupdating] at hu
        cases hu
    rw [hcount, hpending, hcurrent]
    rfl
  · intro slot hslot
    obtain ⟨n, hn⟩ := List.exists_mem_of_ne_nil _ hslot
    have hplace := h.wheel.place slot n hn
    have hmem : n ∈ pending := (h.wheel.mem n).mpr (hplace ▸ hn)
    rw [hplace]
    exact Timer.slot_inside (h.due n hmem).1 (h.due n hmem).2

/-- **The timer wheel is exact.** In every interleaving of additions and updates each timer is
dispatched once, by the update at which the time is its expiry. -/
theorem timers_exact {p : TimerThread × TimerLog} (h : timers.Reachable p) : p.1.Exact p.2 := by
  have hind : timers.Inductive fun p => ∃ pending, p.1.Keeps p.2 pending := by
    refine ⟨?_, ?_⟩
    · rintro ⟨s, r⟩ ⟨hs, hr⟩
      obtain rfl : s = ⟨.create, .idle⟩ := hs
      obtain rfl : r = ⟨[], []⟩ := hr
      exact ⟨0, keeps_create⟩
    · rintro ⟨s, r⟩ e ⟨t, r'⟩ _ ⟨pending, hp⟩ ⟨hstep, hnote⟩
      obtain rfl : r' = s.note e t r := hnote
      exact hp.exec hstep
  obtain ⟨pending, hp⟩ := hind.invariant p h
  exact hp.exact

/-- A timer for the next tick, and one update. -/
def oneTick : List TimerEv := .add 1 7 1 :: List.replicate 7 .step

theorem timers_exact_one_tick : ∃ p : TimerThread × TimerLog,
    p.2.dispatched = [(⟨1, 7, 1⟩, 1)] ∧ p.1.Exact p.2 := by
  obtain ⟨p, hreach, hp⟩ := TSys.reachable_of_exec (T := timers)
    (p := fun p : TimerThread × TimerLog => p.2.dispatched == [(⟨1, 7, 1⟩, 1)])
    (TSys.observeExec_step fun _ _ _ h => h) (s := (⟨.create, .idle⟩, ⟨[], []⟩)) ⟨rfl, rfl⟩
    (l := oneTick) (by decide +kernel)
  exact ⟨p, by simpa using hp, timers_exact hreach⟩

end TimerThread

end DnServer.Skynet
