import Mathlib

/-!
# The timer wheel

The lists of `skynet_timer.c`: one for each of the next ticks and four coarser
levels. A node is put where the highest bits differ in which its expiry differs from
the time, and when the time comes to a coarse slot its nodes are put anew. So the
place of a node is always the one it would be put to at that time.
-/

namespace DnServer.Skynet

def TIME_NEAR_SHIFT : ℕ := 8
def TIME_NEAR : ℕ := 1 <<< TIME_NEAR_SHIFT
def TIME_LEVEL_SHIFT : ℕ := 6
def TIME_LEVEL : ℕ := 1 <<< TIME_LEVEL_SHIFT
def TIME_NEAR_MASK : ℕ := TIME_NEAR - 1
def TIME_LEVEL_MASK : ℕ := TIME_LEVEL - 1

/-- What an `int` must stay below. -/
def INT_MAX_1 : ℕ := 2 ^ 31

/-- `struct timer_node` with the `struct timer_event` behind it. -/
structure TimerNode where
  handle : ℕ
  session : ℤ
  expire : ℕ
  deriving DecidableEq, Repr

/-- A list of `struct timer`: `near[j]` or `t[i][j]`. -/
inductive Slot
  | near (j : ℕ)
  | t (i : ℕ) (j : ℤ)
  deriving DecidableEq, Repr

/-- A list of the arrays: `near` has 256 and each level 63. -/
def Slot.Inside : Slot → Prop
  | .near j => j < TIME_NEAR
  | .t i j => i < 4 ∧ 0 ≤ j ∧ j < TIME_LEVEL - 1

/-- `struct timer`. -/
structure Timer where
  list : Slot → List TimerNode
  time : ℕ

namespace Timer

/-- The loop of `add_node` that finds the level, `n` rounds at most. -/
def find_level (time current_time i mask : ℕ) : ℕ → ℕ
  | 0 => i
  | n + 1 =>
    if time ||| (mask - 1) = current_time ||| (mask - 1) then i
    else find_level time current_time (i + 1) (mask <<< TIME_LEVEL_SHIFT) n

/-- Where `add_node` puts a node. -/
def slot (current_time time : ℕ) : Slot :=
  if time ||| TIME_NEAR_MASK = current_time ||| TIME_NEAR_MASK then .near (time &&& TIME_NEAR_MASK)
  else
    let i := find_level time current_time 0 (TIME_NEAR <<< TIME_LEVEL_SHIFT) 3
    .t i (((time >>> (TIME_NEAR_SHIFT + i * TIME_LEVEL_SHIFT)) &&& TIME_LEVEL_MASK : ℕ) - 1)

/-- `link`. -/
def link (T : Timer) (s : Slot) (node : TimerNode) : Timer :=
  { T with list := Function.update T.list s (T.list s ++ [node]) }

/-- `link_clear`; the list is `T.list s`. -/
def link_clear (T : Timer) (s : Slot) : Timer := { T with list := Function.update T.list s [] }

/-- `add_node`. -/
def add_node (T : Timer) (node : TimerNode) : Timer := T.link (slot T.time node.expire) node

/-- `timer_add`. -/
def timer_add (T : Timer) (handle : ℕ) (session : ℤ) (time : ℕ) : Timer :=
  T.add_node ⟨handle, session, time + T.time⟩

/-- The slot that `timer_shift` puts anew at time `now`; `time` is what is left of it at level `i`,
and `n` levels are left. -/
def shift_slot (now time i mask : ℕ) : ℕ → Option Slot
  | 0 => none
  | n + 1 =>
    if now &&& (mask - 1) = 0 then
      if time &&& TIME_LEVEL_MASK ≠ 0 then some (.t i ((time &&& TIME_LEVEL_MASK : ℕ) - 1))
      else shift_slot now (time >>> TIME_LEVEL_SHIFT) (i + 1) (mask <<< TIME_LEVEL_SHIFT) n
    else none

/-- The slot that is put anew at time `now`. -/
def cascade (now : ℕ) : Option Slot := shift_slot now (now >>> TIME_NEAR_SHIFT) 0 TIME_NEAR 4

/-- `timer_shift`. -/
def timer_shift (T : Timer) : Timer :=
  let T := { T with time := T.time + 1 }
  match cascade T.time with
  | none => T
  | some s => (T.list s).foldl add_node (T.link_clear s)

/-- `timer_create_timer`. -/
def create : Timer := ⟨fun _ => [], 0⟩

/-! ## Places by division -/

variable {a b k now old e : ℕ}

/-- Numbers with the same bits above the mask. -/
theorem or_mask_eq_iff (a b k : ℕ) :
    a ||| (2 ^ k - 1) = b ||| (2 ^ k - 1) ↔ a / 2 ^ k = b / 2 ^ k := by
  constructor
  · intro h
    have hdiv : ∀ x, (x ||| (2 ^ k - 1)) / 2 ^ k = x / 2 ^ k := by
      intro x
      refine Nat.eq_of_testBit_eq fun i => ?_
      rw [Nat.testBit_div_two_pow, Nat.testBit_div_two_pow, Nat.testBit_or,
        Nat.testBit_two_pow_sub_one]
      simp
    rw [← hdiv a, ← hdiv b, h]
  · intro h
    refine Nat.eq_of_testBit_eq fun i => ?_
    rw [Nat.testBit_or, Nat.testBit_or, Nat.testBit_two_pow_sub_one]
    by_cases hi : i < k
    · simp [hi]
    · have hbit : (a / 2 ^ k).testBit (i - k) = (b / 2 ^ k).testBit (i - k) := by rw [h]
      rw [Nat.testBit_div_two_pow, Nat.testBit_div_two_pow, Nat.sub_add_cancel (by omega)] at hbit
      simp [hi, hbit]

theorem slot_eq (current_time time : ℕ) : slot current_time time =
    if time / 256 = current_time / 256 then .near (time % 256)
    else if time / 16384 = current_time / 16384 then .t 0 ((time / 256 % 64 : ℕ) - 1)
    else if time / 1048576 = current_time / 1048576 then .t 1 ((time / 16384 % 64 : ℕ) - 1)
    else if time / 67108864 = current_time / 67108864 then .t 2 ((time / 1048576 % 64 : ℕ) - 1)
    else .t 3 ((time / 67108864 % 64 : ℕ) - 1) := by
  have hnear := or_mask_eq_iff time current_time 8
  have h14 := or_mask_eq_iff time current_time 14
  have h20 := or_mask_eq_iff time current_time 20
  have h26 := or_mask_eq_iff time current_time 26
  have hand8 := Nat.and_two_pow_sub_one_eq_mod time 8
  have hand6 : ∀ x, x &&& (2 ^ 6 - 1) = x % 2 ^ 6 := fun x => Nat.and_two_pow_sub_one_eq_mod x 6
  norm_num at hnear h14 h20 h26 hand8 hand6
  simp only [slot, find_level, TIME_NEAR_MASK, TIME_NEAR, TIME_NEAR_SHIFT, TIME_LEVEL_SHIFT,
    TIME_LEVEL_MASK, TIME_LEVEL]
  norm_num [Nat.shiftLeft_eq, Nat.shiftRight_eq_div_pow, hnear, h14, h20, h26, hand8, hand6]
  by_cases h0 : time / 256 = current_time / 256
  · simp [h0]
  · by_cases h1 : time / 16384 = current_time / 16384
    · simp [h0, h1]
    · by_cases h2 : time / 1048576 = current_time / 1048576
      · simp [h0, h1, h2]
      · by_cases h3 : time / 67108864 = current_time / 67108864 <;> simp [h0, h1, h2, h3]

theorem cascade_eq (now : ℕ) : cascade now =
    if now % 256 = 0 then
      if now / 256 % 64 ≠ 0 then some (.t 0 ((now / 256 % 64 : ℕ) - 1))
      else if now / 16384 % 64 ≠ 0 then some (.t 1 ((now / 16384 % 64 : ℕ) - 1))
      else if now / 1048576 % 64 ≠ 0 then some (.t 2 ((now / 1048576 % 64 : ℕ) - 1))
      else if now / 67108864 % 64 ≠ 0 then some (.t 3 ((now / 67108864 % 64 : ℕ) - 1))
      else none
    else none := by
  have hand : ∀ k x, x &&& (2 ^ k - 1) = x % 2 ^ k := fun k x => Nat.and_two_pow_sub_one_eq_mod x k
  have h8 := hand 8 now
  have h14 := hand 14 now
  have h20 := hand 20 now
  have h26 := hand 26 now
  have h6 := hand 6
  norm_num at h8 h14 h20 h26 h6
  simp only [cascade, shift_slot, TIME_NEAR, TIME_NEAR_SHIFT, TIME_LEVEL_SHIFT, TIME_LEVEL_MASK,
    TIME_LEVEL]
  norm_num [Nat.shiftLeft_eq, Nat.shiftRight_eq_div_pow, h8, h14, h20, h26, h6, Nat.div_div_eq_div_mul]
  split_ifs <;> first | rfl | omega

/-- At its expiry, and not before, the place of a node is the list of the tick. -/
theorem slot_eq_near_iff (h : now ≤ e) : slot now e = .near (now % 256) ↔ e = now := by
  rw [slot_eq]
  constructor
  · intro heq
    split_ifs at heq
    injection heq
    omega
  · rintro rfl
    rw [if_pos rfl]

/-- When the time moves on, only the nodes of the slot that is put anew change their places. -/
theorem slot_succ (he : old < e) (hmax : e < INT_MAX_1) (hne : cascade (old + 1) ≠ some (slot old e)) :
    slot (old + 1) e = slot old e := by
  have hmax : e < 2147483648 := hmax
  by_cases h0 : e / 256 = old / 256
  · have h0' : e / 256 = (old + 1) / 256 := by omega
    rw [slot_eq, slot_eq, if_pos h0, if_pos h0']
  by_cases h1 : e / 16384 = old / 16384
  · have hold : slot old e = .t 0 ((e / 256 % 64 : ℕ) - 1) := by rw [slot_eq, if_neg h0, if_pos h1]
    have h0' : e / 256 ≠ (old + 1) / 256 := by
      intro heq
      have hcascade : cascade (old + 1) = some (.t 0 ((e / 256 % 64 : ℕ) - 1)) := by
        rw [cascade_eq, if_pos (by omega), if_pos (by omega), heq]
      exact hne (hcascade.trans (congrArg some hold.symm))
    rw [hold, slot_eq, if_neg h0', if_pos (by omega)]
  by_cases h2 : e / 1048576 = old / 1048576
  · have hold : slot old e = .t 1 ((e / 16384 % 64 : ℕ) - 1) := by
      rw [slot_eq, if_neg h0, if_neg h1, if_pos h2]
    have h1' : e / 16384 ≠ (old + 1) / 16384 := by
      intro heq
      have hcascade : cascade (old + 1) = some (.t 1 ((e / 16384 % 64 : ℕ) - 1)) := by
        rw [cascade_eq, if_pos (by omega), if_neg (by omega), if_pos (by omega), heq]
      exact hne (hcascade.trans (congrArg some hold.symm))
    rw [hold, slot_eq, if_neg (by omega), if_neg h1', if_pos (by omega)]
  by_cases h3 : e / 67108864 = old / 67108864
  · have hold : slot old e = .t 2 ((e / 1048576 % 64 : ℕ) - 1) := by
      rw [slot_eq, if_neg h0, if_neg h1, if_neg h2, if_pos h3]
    have h2' : e / 1048576 ≠ (old + 1) / 1048576 := by
      intro heq
      have hcascade : cascade (old + 1) = some (.t 2 ((e / 1048576 % 64 : ℕ) - 1)) := by
        rw [cascade_eq, if_pos (by omega), if_neg (by omega), if_neg (by omega), if_pos (by omega), heq]
      exact hne (hcascade.trans (congrArg some hold.symm))
    rw [hold, slot_eq, if_neg (by omega), if_neg (by omega), if_neg h2', if_pos (by omega)]
  · have hold : slot old e = .t 3 ((e / 67108864 % 64 : ℕ) - 1) := by
      rw [slot_eq, if_neg h0, if_neg h1, if_neg h2, if_neg h3]
    have h3' : e / 67108864 ≠ (old + 1) / 67108864 := by
      intro heq
      have hcascade : cascade (old + 1) = some (.t 3 ((e / 67108864 % 64 : ℕ) - 1)) := by
        rw [cascade_eq, if_pos (by omega), if_neg (by omega), if_neg (by omega), if_neg (by omega),
          if_pos (by omega), heq]
      exact hne (hcascade.trans (congrArg some hold.symm))
    rw [hold, slot_eq, if_neg (by omega), if_neg (by omega), if_neg (by omega), if_neg h3']

/-- A node that is due later is put inside the arrays. -/
theorem slot_inside (h : now ≤ e) (hmax : e < INT_MAX_1) : (slot now e).Inside := by
  have hmax : e < 2147483648 := hmax
  have hnear : TIME_NEAR = 256 := rfl
  have hlevel : TIME_LEVEL = 64 := rfl
  rw [slot_eq]
  split_ifs <;> simp only [Slot.Inside, hnear, hlevel] <;> omega

/-! ## What the wheel is for -/

/-- The wheel holds the pending timers, each in its place. -/
structure Represents (T : Timer) (pending : Multiset TimerNode) : Prop where
  place : ∀ s, ∀ n ∈ T.list s, s = slot T.time n.expire
  count : ∀ n, pending.count n = (T.list (slot T.time n.expire)).count n

variable {T : Timer} {pending : Multiset TimerNode} {node : TimerNode}

theorem create_represents : create.Represents 0 where
  place := by
    intro s n hn
    cases hn
  count := fun _ => rfl

/-- Nodes of a list that are pending are in it. -/
theorem Represents.mem (h : T.Represents pending) (node : TimerNode) :
    node ∈ pending ↔ node ∈ T.list (slot T.time node.expire) := by
  rw [← Multiset.count_pos, h.count, List.count_pos_iff]

theorem Represents.add_node (h : T.Represents pending) (node : TimerNode) :
    (T.add_node node).Represents (node ::ₘ pending) where
  place := by
    intro s n hn
    by_cases hs : s = slot T.time node.expire
    · subst hs
      have hn : n ∈ T.list (slot T.time node.expire) ++ [node] := by
        simpa [Timer.add_node, link] using hn
      rcases List.mem_append.mp hn with hn | hn
      · exact h.place _ n hn
      · rw [List.mem_singleton.mp hn]
        rfl
    · have hn : n ∈ T.list s := by simpa [Timer.add_node, link, hs] using hn
      exact h.place s n hn
  count := by
    intro n
    rw [Multiset.count_cons, h.count]
    show _ = List.count n (Function.update T.list (slot T.time node.expire)
      (T.list (slot T.time node.expire) ++ [node]) (slot T.time n.expire))
    by_cases hs : slot T.time n.expire = slot T.time node.expire
    · rw [hs, Function.update_self, List.count_append]
      by_cases hn : n = node
      · simp [hn]
      · simp [hn, Ne.symm hn]
    · rw [Function.update_of_ne hs]
      have hne : n ≠ node := by
        rintro rfl
        exact hs rfl
      simp [hne]

theorem Represents.add_all {l : List TimerNode} (h : T.Represents pending) :
    (l.foldl Timer.add_node T).Represents (pending + l) ∧ (l.foldl Timer.add_node T).time = T.time := by
  induction l generalizing T pending with
  | nil =>
    rw [Multiset.coe_nil, add_zero]
    exact ⟨h, rfl⟩
  | cons n l ih =>
    obtain ⟨hrep, htime⟩ := ih (h.add_node n)
    rw [List.foldl_cons]
    refine ⟨?_, htime⟩
    rwa [← Multiset.cons_coe, Multiset.add_cons, ← Multiset.cons_add]

/-- A list is taken off, and nothing but its nodes is missing. -/
theorem Represents.link_clear {s : Slot} (h : T.Represents pending) :
    (T.link_clear s).Represents (pending - T.list s) ∧ (T.list s : Multiset TimerNode) ≤ pending := by
  have hcount : ∀ n, slot T.time n.expire ≠ s → List.count n (T.list s) = 0 := by
    intro n hn
    rw [List.count_eq_zero]
    exact fun hmem => hn (h.place s n hmem).symm
  refine ⟨⟨?_, ?_⟩, ?_⟩
  · intro x n hn
    by_cases hx : x = s
    · subst hx
      simp [Timer.link_clear] at hn
    · exact h.place x n (by simpa [Timer.link_clear, hx] using hn)
  · intro n
    rw [Multiset.count_sub, h.count, Multiset.coe_count]
    show _ = List.count n (Function.update T.list s [] (slot T.time n.expire))
    by_cases hs : slot T.time n.expire = s
    · rw [hs, Function.update_self, Nat.sub_self, List.count_nil]
    · rw [Function.update_of_ne hs, hcount n hs, Nat.sub_zero]
  · rw [Multiset.le_iff_count]
    intro n
    rw [Multiset.coe_count, h.count]
    by_cases hs : slot T.time n.expire = s
    · rw [hs]
    · rw [hcount n hs]
      exact Nat.zero_le _

/-- The time moves on, and the slot whose time has come is taken off. -/
theorem Represents.tick (h : T.Represents pending) (hdue : ∀ n ∈ pending, T.time < n.expire)
    (hmax : ∀ n ∈ pending, n.expire < INT_MAX_1)
    (hc : ∀ n ∈ pending, cascade (T.time + 1) ≠ some (slot T.time n.expire)) :
    ({ T with time := T.time + 1 } : Timer).Represents pending := by
  have hpending : ∀ s, ∀ n ∈ T.list s, n ∈ pending := by
    intro s n hn
    rw [h.mem, ← h.place s n hn]
    exact hn
  have hsame : ∀ n ∈ pending, slot (T.time + 1) n.expire = slot T.time n.expire := fun n hn =>
    slot_succ (hdue n hn) (hmax n hn) (hc n hn)
  refine ⟨?_, ?_⟩
  · intro s n hn
    exact (h.place s n hn).trans (hsame n (hpending s n hn)).symm
  · intro n
    by_cases hn : n ∈ pending
    · rw [h.count]
      show _ = List.count n (T.list (slot (T.time + 1) n.expire))
      rw [hsame n hn]
    · rw [Multiset.count_eq_zero_of_notMem hn]
      symm
      rw [List.count_eq_zero]
      exact fun hmem => hn (hpending _ n hmem)

/-- `timer_shift` moves nothing but the time: the same timers are pending. -/
theorem Represents.timer_shift (h : T.Represents pending) (hdue : ∀ n ∈ pending, T.time < n.expire)
    (hmax : ∀ n ∈ pending, n.expire < INT_MAX_1) :
    T.timer_shift.Represents pending ∧ T.timer_shift.time = T.time + 1 := by
  unfold Timer.timer_shift
  dsimp only
  cases hc : cascade (T.time + 1) with
  | none =>
    refine ⟨h.tick hdue hmax fun n _ => ?_, rfl⟩
    rw [hc]
    exact (Option.some_ne_none _).symm
  | some s =>
    obtain ⟨hcleared, hle⟩ := h.link_clear (s := s)
    have hsub : ∀ n ∈ pending - T.list s, n ∈ pending := fun n hn => Multiset.mem_of_le (Multiset.sub_le_self _ _) hn
    -- no node of that slot is left
    have hgone : ∀ n ∈ pending - T.list s, cascade (T.time + 1) ≠ some (slot T.time n.expire) := by
      intro n hn heq
      rw [hc] at heq
      have hslot := (hcleared.mem n).mp hn
      have hempty : (T.link_clear s).list (slot T.time n.expire) = [] := by
        rw [← Option.some.inj heq]
        exact Function.update_self ..
      rw [show (T.link_clear s).time = T.time from rfl, hempty] at hslot
      cases hslot
    have htick := hcleared.tick (fun n hn => hdue n (hsub n hn)) (fun n hn => hmax n (hsub n hn)) hgone
    obtain ⟨hadd, htime⟩ := htick.add_all (l := T.list s)
    rw [tsub_add_cancel_of_le hle] at hadd
    exact ⟨hadd, htime⟩

end Timer

end DnServer.Skynet
