import DnServer.Skynet.Timer.Wheel

/-!
# The timer wheel in words

`add_node` and `timer_shift` compute in an `int` of 32 bits, and a service may ask for any
delay. The places are those of the wheel for every pair of words; but a node that is due
before the time can be put outside the lists, and at the tick that brings the time back to
0 the cascade finds no digit and goes on for ever.

* `cascadeEnds_iff`: the loop over the levels goes on while the digits are 0, and
  without end when all are.
* `placed_iff`: where the word operations put a node, against where `Wheel` has it
  (`falls_iff`).
-/

namespace DnServer.Skynet

/-- `struct timer_node` with its event, the expiry being an `int`. -/
structure WordNode where
  handle : ℕ
  session : ℤ
  expire : BitVec 32
  deriving DecidableEq

/-- The node of the wheel. -/
def WordNode.number (node : WordNode) : TimerNode := ⟨node.handle, node.session, node.expire.toNat⟩

/-- `struct timer`. -/
structure WordTimer where
  list : Slot → List WordNode
  time : BitVec 32

namespace WordTimer

/-- The loop of `add_node` that finds the level, `n` rounds at most. -/
def find_level (time current_time : BitVec 32) (i : ℕ) (mask : BitVec 32) : ℕ → ℕ
  | 0 => i
  | n + 1 =>
    if time ||| (mask - 1) = current_time ||| (mask - 1) then i
    else find_level time current_time (i + 1) (mask <<< TIME_LEVEL_SHIFT) n

/-- Where `add_node` puts a node; an `int` is shifted with its sign. -/
def slot (current_time time : BitVec 32) : Slot :=
  if time ||| TIME_NEAR_MASK = current_time ||| TIME_NEAR_MASK then
    .near (time &&& TIME_NEAR_MASK).toNat
  else
    let i := find_level time current_time 0 (TIME_NEAR <<< TIME_LEVEL_SHIFT : ℕ) 3
    .t i ((time.sshiftRight (TIME_NEAR_SHIFT + i * TIME_LEVEL_SHIFT) &&& TIME_LEVEL_MASK).toNat - 1)

/-- `link`. -/
def link (T : WordTimer) (s : Slot) (node : WordNode) : WordTimer :=
  { T with list := Function.update T.list s (T.list s ++ [node]) }

/-- `link_clear`; the list is `T.list s`. -/
def link_clear (T : WordTimer) (s : Slot) : WordTimer :=
  { T with list := Function.update T.list s [] }

/-- `add_node`. -/
def add_node (T : WordTimer) (node : WordNode) : WordTimer := T.link (slot T.time node.expire) node

/-- `timer_add`. -/
def timer_add (T : WordTimer) (handle : ℕ) (session : ℤ) (time : BitVec 32) : WordTimer :=
  T.add_node ⟨handle, session, time + T.time⟩

/-- `skynet_timeout`; without a delay the response is pushed and the wheel left alone. -/
def skynet_timeout (T : WordTimer) (handle : ℕ) (time : BitVec 32) (session : ℤ) : WordTimer :=
  if time = 0 then T else T.timer_add handle session time

/-- The variables of the loop of `timer_shift`. -/
structure Shift where
  mask : BitVec 32
  time : BitVec 32
  i : ℕ

/-- What a round of the loop comes to. -/
inductive Round
  /-- The mask test fails. -/
  | finished
  /-- The list whose nodes are put anew. -/
  | found (s : Slot)
  | again (v : Shift)

def round (now : BitVec 32) (v : Shift) : Round :=
  if now &&& (v.mask - 1) = 0 then
    let idx := v.time &&& TIME_LEVEL_MASK
    if idx ≠ 0 then .found (.t v.i (idx.toNat - 1))
    else .again ⟨v.mask <<< TIME_LEVEL_SHIFT, v.time.sshiftRight TIME_LEVEL_SHIFT, v.i + 1⟩
  else .finished

/-- The loop at time `now`; `none` when `n` rounds are not enough. -/
def shift_loop (now : BitVec 32) : ℕ → Shift → Option (Option Slot)
  | 0, _ => none
  | n + 1, v =>
    match round now v with
    | .finished => some none
    | .found s => some (some s)
    | .again v => shift_loop now n v

/-- The loop from its start. -/
def cascade (now : BitVec 32) (n : ℕ) : Option (Option Slot) :=
  shift_loop now n ⟨TIME_NEAR, now.sshiftRight TIME_NEAR_SHIFT, 0⟩

/-- `timer_shift`, with `n` rounds of its loop. -/
def timer_shift (T : WordTimer) (n : ℕ) : Option WordTimer :=
  let T := { T with time := T.time + 1 }
  (cascade T.time n).map fun
    | none => T
    | some s => (T.list s).foldl add_node (T.link_clear s)

/-! ## Digits of a word -/

/-- The sign of a word does not reach the six bits that are taken. -/
theorem digit_eq (x : BitVec 32) {k : ℕ} (hk : k ≤ 26) :
    (x.sshiftRight k &&& TIME_LEVEL_MASK).toNat = x.toNat / 2 ^ k % 64 := by
  have hmask : ((TIME_LEVEL_MASK : ℕ) : BitVec 32) = 63#32 := rfl
  have hunsigned : x.sshiftRight k &&& 63#32 = x >>> k &&& 63#32 := by
    refine BitVec.eq_of_getLsbD_eq fun i hi => ?_
    rw [BitVec.getLsbD_and, BitVec.getLsbD_and]
    by_cases hi6 : i < 6
    · rw [BitVec.getLsbD_sshiftRight, BitVec.getLsbD_ushiftRight]
      have hin : k + i < 32 := by omega
      have hi' : ¬ 32 ≤ i := by omega
      simp [hin, hi']
    · have hzero : (63#32).getLsbD i = false := by
        interval_cases i <;> first | omega | rfl
      rw [hzero, Bool.and_false, Bool.and_false]
  rw [hmask, hunsigned, BitVec.toNat_and, BitVec.toNat_ushiftRight, Nat.shiftRight_eq_div_pow]
  exact Nat.and_two_pow_sub_one_eq_mod _ 6

/-- Words that are the same above a mask. -/
theorem or_eq_iff (a b mask : BitVec 32) :
    a ||| mask = b ||| mask ↔ a.toNat ||| mask.toNat = b.toNat ||| mask.toNat := by
  rw [← BitVec.toNat_or, ← BitVec.toNat_or, BitVec.toNat_inj]

theorem mask_sub_one {k : ℕ} (hk : k < 32) : (BitVec.ofNat 32 (2 ^ k) - 1).toNat = 2 ^ k - 1 := by
  have hlt : 2 ^ k < 2 ^ 32 := Nat.pow_lt_pow_right (by decide) hk
  have hpos : 0 < 2 ^ k := Nat.two_pow_pos k
  have hone : (1 : BitVec 32).toNat = 1 := rfl
  rw [BitVec.toNat_sub, BitVec.toNat_ofNat, Nat.mod_eq_of_lt hlt, hone]
  omega

theorem mask_shift {k : ℕ} (hk : k < 32) :
    BitVec.ofNat 32 (2 ^ k) <<< TIME_LEVEL_SHIFT = BitVec.ofNat 32 (2 ^ (k + 6)) := by
  have hlt : 2 ^ k < 2 ^ 32 := Nat.pow_lt_pow_right (by decide) hk
  refine BitVec.eq_of_toNat_eq ?_
  rw [BitVec.toNat_shiftLeft, BitVec.toNat_ofNat, BitVec.toNat_ofNat, Nat.mod_eq_of_lt hlt,
    Nat.shiftLeft_eq, pow_add]
  rfl

/-- As long as the mask does not leave the word, the level is that of the wheel. -/
theorem find_level_eq (time current_time : BitVec 32) {n : ℕ} : ∀ {i k : ℕ}, k + 6 * n ≤ 32 →
    find_level time current_time i (BitVec.ofNat 32 (2 ^ k)) n =
      Timer.find_level time.toNat current_time.toNat i (2 ^ k) n := by
  induction n with
  | zero => intros; rfl
  | succ n ih =>
    intro i k hk
    rw [find_level, Timer.find_level, mask_shift (by omega), ih (by omega), Nat.shiftLeft_eq,
      pow_add]
    simp only [or_eq_iff, mask_sub_one (show k < 32 by omega)]
    rfl

theorem find_level_le (time current_time : ℕ) {n : ℕ} : ∀ {i mask : ℕ},
    Timer.find_level time current_time i mask n ≤ i + n := by
  induction n with
  | zero => intros; exact le_rfl
  | succ n ih =>
    intro i mask
    rw [Timer.find_level]
    split
    · omega
    · exact ih.trans (by omega)

/-- The place of a node is the one in the wheel. -/
theorem slot_eq (current_time time : BitVec 32) :
    slot current_time time = Timer.slot current_time.toNat time.toNat := by
  have hlow : (TIME_NEAR_MASK : BitVec 32).toNat = TIME_NEAR_MASK := rfl
  have hlevel : find_level time current_time 0 (TIME_NEAR <<< TIME_LEVEL_SHIFT : ℕ) 3 =
      Timer.find_level time.toNat current_time.toNat 0 (TIME_NEAR <<< TIME_LEVEL_SHIFT) 3 :=
    find_level_eq time current_time (k := 14) (by decide)
  have hle :
      Timer.find_level time.toNat current_time.toNat 0 (TIME_NEAR <<< TIME_LEVEL_SHIFT) 3 ≤ 3 :=
    find_level_le _ _
  unfold slot Timer.slot
  simp only [or_eq_iff, hlow, hlevel, BitVec.toNat_and]
  generalize Timer.find_level time.toNat current_time.toNat 0
    (TIME_NEAR <<< TIME_LEVEL_SHIFT) 3 = i at *
  have hdigit := digit_eq time (k := TIME_NEAR_SHIFT + i * TIME_LEVEL_SHIFT) (by
    have : TIME_NEAR_SHIFT + i * TIME_LEVEL_SHIFT = 8 + i * 6 := rfl
    omega)
  rw [BitVec.toNat_and] at hdigit
  rw [hdigit, Nat.shiftRight_eq_div_pow]
  have hand := Nat.and_two_pow_sub_one_eq_mod
    (time.toNat / 2 ^ (TIME_NEAR_SHIFT + i * TIME_LEVEL_SHIFT)) 6
  have hmask : TIME_LEVEL_MASK = 2 ^ 6 - 1 := rfl
  rw [hmask, hand]

/-! ## The wheel -/

/-- The timer of the wheel that the words stand for. -/
def wheel (T : WordTimer) : Timer := ⟨fun s => (T.list s).map WordNode.number, T.time.toNat⟩

variable {T : WordTimer} {now : BitVec 32}

theorem wheel_link (T : WordTimer) (s : Slot) (node : WordNode) :
    (T.link s node).wheel = T.wheel.link s node.number := by
  unfold wheel link Timer.link
  congr 1
  funext x
  by_cases hx : x = s
  · subst hx
    simp
  · simp [hx]

theorem wheel_link_clear (T : WordTimer) (s : Slot) :
    (T.link_clear s).wheel = T.wheel.link_clear s := by
  unfold wheel link_clear Timer.link_clear
  congr 1
  funext x
  by_cases hx : x = s
  · subst hx
    simp
  · simp [hx]

theorem wheel_add_node (T : WordTimer) (node : WordNode) :
    (T.add_node node).wheel = T.wheel.add_node node.number := by
  rw [add_node, wheel_link, slot_eq]
  rfl

theorem wheel_add_all (l : List WordNode) (T : WordTimer) :
    (l.foldl add_node T).wheel = (l.map WordNode.number).foldl Timer.add_node T.wheel := by
  induction l generalizing T with
  | nil => rfl
  | cons node l ih => rw [List.foldl_cons, ih, wheel_add_node, List.map_cons, List.foldl_cons]

/-- More rounds than enough change nothing. -/
theorem shift_loop_mono {n : ℕ} : ∀ {v : Shift} {r : Option Slot}, shift_loop now n v = some r →
    ∀ m, shift_loop now (n + m) v = some r := by
  induction n with
  | zero => intro v r h; cases h
  | succ n ih =>
    intro v r h m
    rw [Nat.succ_add, shift_loop]
    rw [shift_loop] at h
    cases hround : round now v with
    | finished => rwa [hround] at h
    | found s => rwa [hround] at h
    | again v' =>
      rw [hround] at h
      exact ih h m

/-- Round `i` starts at bit `8 + 6 * i`, with nothing but zeros below it; a time other than 0
has a digit by the fourth round. -/
theorem shift_loop_eq (hnow : now ≠ 0) {n : ℕ} : ∀ {i : ℕ}, i + n = 4 →
    (i ≠ 0 → now.toNat % 2 ^ (8 + 6 * i) = 0) →
    shift_loop now n ⟨BitVec.ofNat 32 (2 ^ (8 + 6 * i)), now.sshiftRight (8 + 6 * i), i⟩ =
      some (Timer.shift_slot now.toNat (now.toNat >>> (8 + 6 * i)) i (2 ^ (8 + 6 * i)) n) := by
  induction n with
  | zero =>
    intro i hi hzero
    obtain rfl : i = 4 := by omega
    have hlt := now.isLt
    have hzero : now.toNat % 2 ^ 32 = 0 := hzero (by decide)
    rw [Nat.mod_eq_of_lt hlt] at hzero
    exact absurd (BitVec.eq_of_toNat_eq hzero) hnow
  | succ n ih =>
    intro i hi hzero
    have hk : 8 + 6 * i < 32 := by omega
    have htest : now &&& (BitVec.ofNat 32 (2 ^ (8 + 6 * i)) - 1) = 0 ↔
        now.toNat &&& (2 ^ (8 + 6 * i) - 1) = 0 := by
      rw [← mask_sub_one hk, ← BitVec.toNat_and, ← BitVec.toNat_inj]
      rfl
    have hdigit : (now.sshiftRight (8 + 6 * i) &&& TIME_LEVEL_MASK).toNat =
        now.toNat >>> (8 + 6 * i) &&& TIME_LEVEL_MASK := by
      rw [digit_eq now (by omega), Nat.shiftRight_eq_div_pow]
      exact (Nat.and_two_pow_sub_one_eq_mod _ 6).symm
    have hnonzero : now.sshiftRight (8 + 6 * i) &&& TIME_LEVEL_MASK ≠ 0 ↔
        now.toNat >>> (8 + 6 * i) &&& TIME_LEVEL_MASK ≠ 0 := by
      rw [← hdigit, ne_eq, ne_eq, ← BitVec.toNat_inj]
      rfl
    have hnext : 8 + 6 * i + 6 = 8 + 6 * (i + 1) := by ring
    rw [shift_loop, Timer.shift_slot, round]
    simp only [htest, hnonzero, hdigit]
    by_cases hz : now.toNat &&& (2 ^ (8 + 6 * i) - 1) = 0
    · rw [if_pos hz, if_pos hz]
      by_cases hd : now.toNat >>> (8 + 6 * i) &&& TIME_LEVEL_MASK ≠ 0
      · rw [if_pos hd, if_pos hd]
      · rw [if_neg hd, if_neg hd]
        have hstep := ih (i := i + 1) (by omega) fun _ => ?_
        · have hsix : TIME_LEVEL_SHIFT = 6 := rfl
          rw [← hnext] at hstep
          simp only
          rw [mask_shift hk, ← BitVec.sshiftRight_add, ← Nat.shiftRight_add, Nat.shiftLeft_eq, hsix,
            ← pow_add]
          exact hstep
        · have hd : now.toNat >>> (8 + 6 * i) &&& (2 ^ 6 - 1) = 0 := not_not.mp hd
          rw [Nat.and_two_pow_sub_one_eq_mod] at hz hd
          rw [Nat.shiftRight_eq_div_pow] at hd
          rw [← hnext, pow_add, Nat.mod_mul, hz, hd]
          rfl
    · rw [if_neg hz, if_neg hz]

theorem cascade_eq (hnow : now ≠ 0) {n : ℕ} (hn : 4 ≤ n) :
    cascade now n = some (Timer.cascade now.toNat) := by
  obtain ⟨m, rfl⟩ := Nat.exists_eq_add_of_le hn
  exact shift_loop_mono (shift_loop_eq hnow (i := 0) rfl fun h => absurd rfl h) m

/-- At time 0 every round has to be followed by another. -/
theorem shift_loop_zero (n : ℕ) :
    ∀ {mask : BitVec 32} {i : ℕ}, shift_loop 0 n ⟨mask, 0, i⟩ = none := by
  induction n with
  | zero => intros; rfl
  | succ n ih =>
    intro mask i
    have hand : ∀ x : BitVec 32, 0 &&& x = 0 := fun _ => BitVec.zero_and
    have hround : round 0 ⟨mask, 0, i⟩ = .again ⟨mask <<< TIME_LEVEL_SHIFT, 0, i + 1⟩ := by
      unfold round
      simp only [hand, ne_eq, not_true_eq_false, if_true, if_false]
      rfl
    rw [shift_loop, hround]
    exact ih

/-- The time does not wrap. -/
theorem time_succ (hT : T.time ≠ 0xffffffff#32) :
    T.time + 1 ≠ 0 ∧ (T.time + 1).toNat = T.time.toNat + 1 := by
  have hsucc : (T.time + 1).toNat = T.time.toNat + 1 := by
    have hlt := T.time.isLt
    have hne : T.time.toNat ≠ 4294967295 := fun h => hT (BitVec.eq_of_toNat_eq h)
    have hone : (1 : BitVec 32).toNat = 1 := rfl
    rw [BitVec.toNat_add, hone]
    exact Nat.mod_eq_of_lt (by omega)
  refine ⟨fun h => ?_, hsucc⟩
  have hzero : (T.time + 1).toNat = 0 := congrArg BitVec.toNat h
  omega

/-- Until the time wraps, a shift of the words is a shift of the wheel. -/
theorem wheel_timer_shift (hT : T.time ≠ 0xffffffff#32) {n : ℕ} (hn : 4 ≤ n) :
    ∃ T', T.timer_shift n = some T' ∧ T'.wheel = T.wheel.timer_shift := by
  obtain ⟨hnow, hsucc⟩ := time_succ hT
  unfold timer_shift Timer.timer_shift
  simp only
  rw [cascade_eq hnow hn, hsucc]
  have htime : ({ T with time := T.time + 1 } : WordTimer).wheel =
      { T.wheel with time := T.wheel.time + 1 } := by
    unfold wheel
    rw [hsucc]
  have hwheel : T.wheel.time = T.time.toNat := rfl
  cases hc : Timer.cascade (T.time.toNat + 1) with
  | none => exact ⟨_, rfl, by rw [hwheel, hc]; exact htime⟩
  | some s =>
    refine ⟨_, rfl, ?_⟩
    rw [hwheel, hc, wheel_add_all, wheel_link_clear, htime]
    rfl

/-! ## The ends of the word -/

theorem cascade_inside {now : ℕ} {s : Slot} (h : Timer.cascade now = some s) : s.Inside := by
  have hlevel : TIME_LEVEL = 64 := rfl
  rw [Timer.cascade_eq] at h
  split_ifs at h <;> obtain rfl := Option.some.inj h <;> simp only [Slot.Inside, hlevel] <;> omega

/-- The cascade of `timer_shift` ends, and the list it takes off is one of the arrays. -/
def CascadeEnds (T : WordTimer) : Prop :=
  (∃ n T', T.timer_shift n = some T') ∧
    ∀ n s, cascade (T.time + 1) n = some (some s) → s.Inside

/-- At the last time the shift does not come to its end. -/
theorem timer_shift_last (hT : T.time = 0xffffffff#32) (n : ℕ) : T.timer_shift n = none := by
  have hnow : T.time + 1 = 0 := by
    rw [hT]
    rfl
  have hloop : cascade 0 n = none := shift_loop_zero n
  unfold timer_shift
  simp only
  rw [hnow, hloop]
  rfl

/-- Of all times only the last one before 0 is such that the cascade does not end. -/
theorem cascadeEnds_iff (T : WordTimer) : T.CascadeEnds ↔ T.time ≠ 0xffffffff#32 := by
  constructor
  · rintro ⟨⟨n, T', hT'⟩, -⟩ hT
    rw [timer_shift_last hT] at hT'
    cases hT'
  · intro hT
    obtain ⟨T', hT', -⟩ := wheel_timer_shift hT (n := 4) le_rfl
    refine ⟨⟨4, T', hT'⟩, fun n s hs => ?_⟩
    have hs' : cascade (T.time + 1) (n + 4) = some (some s) := shift_loop_mono hs 4
    rw [cascade_eq (time_succ hT).1 (Nat.le_add_left 4 n)] at hs'
    exact cascade_inside (Option.some.inj hs')

/-- The tick from the last time to 0. -/
theorem last_tick_hangs : ¬ CascadeEnds ⟨fun _ => [], 0xffffffff#32⟩ := by
  rintro ⟨⟨n, T', hT'⟩, -⟩
  rw [timer_shift_last rfl] at hT'
  cases hT'

/-- At some level the expiry has digit 0 and the time another, and above it they are the same. -/
def Falls (now expire : BitVec 32) : Prop :=
  ∃ i < 4, expire.toNat / 2 ^ (14 + 6 * i) = now.toNat / 2 ^ (14 + 6 * i) ∧
    expire.toNat / 2 ^ (8 + 6 * i) % 64 = 0 ∧ now.toNat / 2 ^ (8 + 6 * i) % 64 ≠ 0

/-- Words that agree above a bit agree above every higher one. -/
theorem above_mono {a b j k : ℕ} (h : a / 2 ^ j = b / 2 ^ j) (hjk : j ≤ k) :
    a / 2 ^ k = b / 2 ^ k := by
  obtain ⟨m, rfl⟩ := Nat.exists_eq_add_of_le hjk
  rw [pow_add, ← Nat.div_div_eq_div_mul, ← Nat.div_div_eq_div_mul, h]

/-- Words that agree in all that the near list leaves out do not fall. -/
theorem not_falls_near {now expire : BitVec 32}
    (h : expire.toNat / 2 ^ 8 = now.toNat / 2 ^ 8) : ¬ Falls now expire := by
  rintro ⟨i, -, -, hexpire, hnow⟩
  rw [above_mono h (Nat.le_add_right 8 (6 * i))] at hexpire
  exact hnow hexpire

/-- The words fall at the highest level where they differ, or nowhere. -/
theorem falls_iff {now expire : BitVec 32} {i : ℕ} (hi : i < 4)
    (hne : expire.toNat / 2 ^ (8 + 6 * i) ≠ now.toNat / 2 ^ (8 + 6 * i))
    (heq : expire.toNat / 2 ^ (14 + 6 * i) = now.toNat / 2 ^ (14 + 6 * i)) :
    Falls now expire ↔ expire.toNat / 2 ^ (8 + 6 * i) % 64 = 0 := by
  constructor
  · rintro ⟨j, -, habove, hexpire, hnow⟩
    rcases Nat.lt_trichotomy j i with hlt | rfl | hgt
    · -- below, the words would agree from here on
      exact absurd (above_mono habove (by omega)) hne
    · exact hexpire
    · -- above, their digits are the same
      rw [above_mono heq (by omega)] at hexpire
      exact absurd hexpire hnow
  · intro hexpire
    refine ⟨i, hi, heq, hexpire, fun hnow => hne ?_⟩
    have hsix : 14 + 6 * i = 8 + 6 * i + 6 := by ring
    rw [hsix, pow_add, ← Nat.div_div_eq_div_mul, ← Nat.div_div_eq_div_mul] at heq
    omega

theorem slot_inside_iff (now expire : BitVec 32) :
    (slot now expire).Inside ↔ ¬ Falls now expire := by
  have hnear : TIME_NEAR = 256 := rfl
  have hlevel : TIME_LEVEL = 64 := rfl
  rw [slot_eq, Timer.slot_eq]
  split_ifs with h8 h14 h20 h26
  · simp only [Slot.Inside, hnear, not_falls_near h8, not_false_eq_true, iff_true]
    exact Nat.mod_lt _ (by decide)
  · rw [falls_iff (i := 0) (by decide) h8 h14]
    simp only [Slot.Inside, hlevel]
    omega
  · rw [falls_iff (i := 1) (by decide) h14 h20]
    simp only [Slot.Inside, hlevel]
    omega
  · rw [falls_iff (i := 2) (by decide) h20 h26]
    simp only [Slot.Inside, hlevel]
    omega
  · have h32 : expire.toNat / 2 ^ 32 = now.toNat / 2 ^ 32 := by
      rw [Nat.div_eq_of_lt expire.isLt, Nat.div_eq_of_lt now.isLt]
    rw [falls_iff (i := 3) (by decide) h26 h32]
    simp only [Slot.Inside, hlevel]
    omega

/-- Whatever list `skynet_timeout` links into is one of the arrays. -/
def Placed (T : WordTimer) (time : BitVec 32) : Prop :=
  ∀ handle session s, (T.skynet_timeout handle time session).list s ≠ T.list s → s.Inside

theorem placed_iff (T : WordTimer) (time : BitVec 32) :
    T.Placed time ↔ ¬ Falls T.time (time + T.time) := by
  rw [← slot_inside_iff]
  unfold Placed skynet_timeout
  by_cases hzero : time = 0
  · -- nothing is linked, and the node would be due at once
    subst hzero
    have htime : 0 + T.time = T.time := BitVec.zero_add T.time
    have hnear : TIME_NEAR = 256 := rfl
    rw [htime, slot_eq, Timer.slot_eq, if_pos rfl]
    simp only [if_true, Slot.Inside, hnear]
    exact iff_of_true (fun _ _ _ h => absurd rfl h) (Nat.mod_lt _ (by decide))
  · simp only [if_neg hzero, timer_add, add_node, link]
    constructor
    · intro h
      refine h 0 0 _ ?_
      rw [Function.update_self]
      simp
    · intro h handle session s hs
      by_cases heq : s = slot T.time (time + T.time)
      · exact heq ▸ h
      · exact absurd (Function.update_of_ne heq _ _) hs

/-- A delay of minus one, two and a half seconds after the start. -/
theorem negative_delay_outside : ¬ Placed ⟨fun _ => [], 256#32⟩ (-1) := by
  intro h
  have hslot : (0 : ℕ) < 4 ∧ (0 : ℤ) ≤ -1 ∧ _ := h 1 0 (.t 0 (-1)) (by decide)
  exact absurd hslot.2.1 (by decide)

end WordTimer

end DnServer.Skynet
