import DnServer.Lib.Transition

/-!
# The lifetime of a multicast message

One message of `skynet_multicast.c` that is cast to a group or to a list of
services. The receivers dispatch or drop their copies while the caster still sends,
each step one atomic operation on the reference count. What is freed is the struct
and the message in it.

* `sound_iff_careful`: references are counted by what is under way (`Counted`); a step
  that is not careful drops one too many at once (`Counted.careless`).
-/

namespace DnServer.Skynet.Multicast

open DnServer.Lib

/-- Where the caster stands. -/
inductive Caster
  | start
  /-- In the loop, with `left` receivers to come and `release` sends that failed. -/
  | sending (left release : ℕ)
  | done
  deriving DecidableEq, Repr

/-- The cast of one message. -/
structure Cast where
  /-- `skynet_multicast_castgroup` or `skynet_multicast_cast`. -/
  group : Bool
  /-- The number of receivers. -/
  n : ℕ
  ref : ℤ
  caster : Caster
  /-- Copies in the queues of receivers. -/
  queued : ℕ
  /-- Receivers that are in their callback. -/
  delivering : ℕ
  /-- How often the struct and the message in it were freed. -/
  mc_freed : ℕ
  msg_freed : ℕ
  /-- The struct was used when it was free. -/
  used : Bool
  deriving DecidableEq, Repr

inductive CastEv
  /-- The caster takes the references for all receivers. -/
  | begin
  /-- It sends to the next one, which is alive or not. -/
  | send (alive : Bool)
  /-- It gives the references of the failed sends back. -/
  | finish
  /-- A receiver enters its callback. -/
  | dispatch
  /-- A receiver leaves its callback. -/
  | dispatched
  /-- `_drop_queue` takes the message from the queue of a service that was retired. -/
  | dropped
  /-- A receiver has no callback, and the data of the message is freed. -/
  | no_callback
  deriving DecidableEq, Repr

namespace Cast

/-- `skynet_multicast_create`, and a caster that knows its receivers. -/
def create (group : Bool) (n : ℕ) : Cast := ⟨group, n, 0, .start, 0, 0, 0, 0, false⟩

/-- The struct is read or written. -/
def touch (c : Cast) : Cast := { c with used := c.used || decide (c.mc_freed ≠ 0) }

/-- `skynet_multicast_copy`, and with -1 the end of `skynet_multicast_dispatch`. -/
def copy (c : Cast) (copy : ℤ) : Cast :=
  let c := { c.touch with ref := c.ref + copy }
  if c.ref = 0 then { c with mc_freed := c.mc_freed + 1, msg_freed := c.msg_freed + 1 } else c

/-- What `skynet_multicast_castgroup` or `skynet_multicast_cast` does before its loop. -/
def begin (c : Cast) : Cast :=
  if c.group then
    if c.n = 0 then { c with caster := .sending 0 0 }
    else { c.copy c.n with caster := .sending c.n 0 }
  else if c.n = 0 then { c.copy 0 with caster := .done }
  else { c.copy c.n with caster := .sending c.n 0 }

/-- What they do behind the loop: a cast to a group does not look whether sends have failed. -/
def finish (c : Cast) (release : ℕ) : Cast :=
  if c.group then { c.copy (-release) with caster := .done }
  else if release ≠ 0 then { c.copy (-release) with caster := .done }
  else { c with caster := .done }

def exec (c : Cast) (e : CastEv) : Option Cast :=
  match e, c.caster with
  | .begin, .start => some c.begin
  | .send true, .sending (left + 1) release =>
    some { c with caster := .sending left release, queued := c.queued + 1 }
  | .send false, .sending (left + 1) release =>
    some { c with caster := .sending left (release + 1) }
  | .finish, .sending 0 release => some (c.finish release)
  | .dispatch, _ =>
    if 0 < c.queued then
      some { c.touch with queued := c.queued - 1, delivering := c.delivering + 1 }
    else none
  | .dispatched, _ =>
    if 0 < c.delivering then some ({ c with delivering := c.delivering - 1 }.copy (-1)) else none
  | .dropped, _ =>
    if 0 < c.queued then some ({ c with queued := c.queued - 1 }.copy (-1)) else none
  | .no_callback, _ =>
    if 0 < c.queued then
      some { c.touch with queued := c.queued - 1, mc_freed := c.mc_freed + 1 }
    else none
  | _, _ => none

def system : TSys Cast CastEv where
  init c := ∃ group n, c = create group n
  step c e d := c.exec e = some d

/-- The message is never used when it is free, it is freed once at most and not before the last
delivery, and it is freed once all is over. -/
structure Sound (c : Cast) : Prop where
  used : c.used = false
  same : c.mc_freed = c.msg_freed
  once : c.mc_freed ≤ 1
  last : c.mc_freed = 1 → c.queued = 0 ∧ c.delivering = 0
  freed : c.caster = .done → c.queued = 0 → c.delivering = 0 → c.mc_freed = 1

/-- A cast to a group of which no send has failed ends before all receivers are through, and no
receiver is without a callback. -/
def Careful (c : Cast) : CastEv → Prop
  | .finish =>
    c.group = true → c.n ≠ 0 → c.caster = .sending 0 0 → 0 < c.queued + c.delivering
  | .no_callback => False
  | _ => True

instance (c : Cast) : (e : CastEv) → Decidable (c.Careful e)
  | .begin => isTrue trivial
  | .send _ => isTrue trivial
  | .finish => inferInstanceAs (Decidable (_ → _ → _ → _))
  | .dispatch => isTrue trivial
  | .dispatched => isTrue trivial
  | .dropped => isTrue trivial
  | .no_callback => isFalse id

/-! ## The count -/

/-- The references that the caster holds. -/
def hold (c : Cast) : ℕ :=
  match c.caster with
  | .sending left release => left + release
  | _ => 0

/-- The caster has not taken any references. -/
def Fresh (c : Cast) : Prop :=
  c.caster = .start ∨ c.group = true ∧ c.n = 0 ∧ c.caster ≠ .done

instance (c : Cast) : Decidable c.Fresh := inferInstanceAs (Decidable (_ ∨ _))

/-- The count is that of the references that are held, and at zero the message is free. -/
structure Counted (c : Cast) : Prop where
  used : c.used = false
  same : c.mc_freed = c.msg_freed
  ref : c.ref = c.hold + c.queued + c.delivering
  freed : c.mc_freed = if c.ref = 0 ∧ ¬c.Fresh then 1 else 0
  fresh : c.Fresh → c.ref = 0

variable {c d : Cast} {e : CastEv} {k : ℤ}

theorem not_fresh_done (h : c.caster = .done) : ¬c.Fresh := by
  rintro (hs | ⟨-, -, hs⟩)
  · rw [h] at hs
    cases hs
  · exact hs h

theorem create_counted (group : Bool) (n : ℕ) : (create group n).Counted where
  used := rfl
  same := rfl
  ref := rfl
  freed := by
    have hfresh : (create group n).Fresh := .inl rfl
    rw [if_neg fun h => h.2 hfresh]
    rfl
  fresh := fun _ => rfl

theorem Counted.sound (h : c.Counted) : c.Sound where
  used := h.used
  same := h.same
  once := by
    rw [h.freed]
    split <;> omega
  last := by
    intro hfreed
    have hzero := h.freed
    have href := h.ref
    rw [hfreed] at hzero
    split at hzero
    · rename_i hz
      rw [hz.1] at href
      omega
    · omega
  freed := by
    intro hdone hq hd
    have href := h.ref
    have hhold : c.hold = 0 := by
      unfold hold
      rw [hdone]
    rw [hhold, hq, hd] at href
    rw [h.freed, if_pos ⟨by simpa using href, not_fresh_done hdone⟩]

/-- A message that somebody holds is not free. -/
theorem Counted.held (h : c.Counted) (hr : c.ref ≠ 0) : c.mc_freed = 0 := by
  rw [h.freed, if_neg fun hz => hr hz.1]

/-- A change of the count where the message is not free. -/
theorem copy_spec (hused : c.used = false) (hsame : c.mc_freed = c.msg_freed)
    (hfree : c.mc_freed = 0) :
    (c.copy k).used = false ∧ (c.copy k).mc_freed = (c.copy k).msg_freed ∧
      (c.copy k).ref = c.ref + k ∧ (c.copy k).mc_freed = (if c.ref + k = 0 then 1 else 0) := by
  unfold copy
  dsimp only [touch]
  split <;> simp_all

theorem copy_rest : (c.copy k).group = c.group ∧ (c.copy k).n = c.n ∧
    (c.copy k).queued = c.queued ∧ (c.copy k).delivering = c.delivering ∧
      (c.copy k).caster = c.caster := by
  unfold copy
  dsimp only [touch]
  split <;> exact ⟨rfl, rfl, rfl, rfl, rfl⟩

/-- What is used when it is free. -/
theorem copy_used (h : c.mc_freed ≠ 0) : (c.copy k).used = true := by
  unfold copy
  dsimp only [touch]
  split <;> simp [h]

/-- The state behind a change of the count, where the holders go with it. -/
theorem Counted.of_copy (h : c.Counted) (hfree : c.mc_freed = 0) (hfresh : ¬d.Fresh)
    (hd : d.used = (c.copy k).used ∧ d.mc_freed = (c.copy k).mc_freed ∧
      d.msg_freed = (c.copy k).msg_freed ∧ d.ref = (c.copy k).ref)
    (hheld : (d.hold + d.queued + d.delivering : ℤ) = c.hold + c.queued + c.delivering + k) :
    d.Counted := by
  obtain ⟨h1, h2, h3, h4⟩ := copy_spec (k := k) h.used h.same hfree
  obtain ⟨hd1, hd2, hd3, hd4⟩ := hd
  refine ⟨hd1.trans h1, ?_, ?_, ?_, fun hf => absurd hf hfresh⟩
  · rw [hd2, hd3, h2]
  · rw [hd4, h3, h.ref, hheld]
  · rw [hd2, h4, hd4, h3]
    by_cases hz : c.ref + k = 0
    · rw [if_pos hz, if_pos ⟨hz, hfresh⟩]
    · rw [if_neg hz, if_neg fun hz' => hz hz'.1]

theorem fresh_idle (h : c.Counted) (hf : c.Fresh) : c.hold = 0 ∧ c.queued = 0 ∧ c.delivering = 0 := by
  have href := h.ref
  rw [h.fresh hf] at href
  omega

theorem Counted.begin (h : c.Counted) (hc : c.caster = .start) : c.begin.Counted := by
  have hf : c.Fresh := .inl hc
  obtain ⟨hhold, hq, hd⟩ := fresh_idle h hf
  have hfree : c.mc_freed = 0 := by rw [h.freed, if_neg fun hz => hz.2 hf]
  obtain ⟨-, hn, hq', hd', -⟩ := copy_rest (c := c) (k := c.n)
  unfold Cast.begin
  by_cases hn0 : c.n = 0
  · by_cases hg : c.group
    · rw [if_pos hg, if_pos hn0]
      have hf' : ({ c with caster := .sending 0 0 } : Cast).Fresh := by
        refine .inr ⟨hg, hn0, ?_⟩
        rintro ⟨⟩
      refine ⟨h.used, h.same, ?_, ?_, fun _ => h.fresh hf⟩
      · show c.ref = ((0 : ℕ) : ℤ) + c.queued + c.delivering
        rw [h.fresh hf, hq, hd]
        rfl
      · rw [if_neg fun hz => hz.2 hf']
        exact hfree
    · rw [if_neg hg, if_pos hn0]
      refine h.of_copy (k := 0) hfree (not_fresh_done rfl) ⟨rfl, rfl, rfl, rfl⟩ ?_
      obtain ⟨-, -, hq₀, hd₀, -⟩ := copy_rest (c := c) (k := 0)
      show ((0 : ℕ) : ℤ) + (c.copy 0).queued + (c.copy 0).delivering = _
      rw [hq₀, hd₀, hhold]
      simp
  · have hsend : ({ c.copy c.n with caster := .sending c.n 0 } : Cast).Counted := by
      refine h.of_copy hfree ?_ ⟨rfl, rfl, rfl, rfl⟩ ?_
      · rintro (hs | ⟨-, hs, -⟩)
        · cases hs
        · exact hn0 (hn.symm.trans hs)
      · show ((c.n + 0 : ℕ) : ℤ) + (c.copy c.n).queued + (c.copy c.n).delivering = _
        rw [hq', hd', hhold, hq, hd]
        simp
    by_cases hg : c.group
    · rw [if_pos hg, if_neg hn0]
      exact hsend
    · rw [if_neg hg, if_neg hn0]
      exact hsend

/-- The caster gives back what it holds; if it looks at the count the message is not free. -/
theorem Counted.finish {release : ℕ} (h : c.Counted) (hc : c.caster = .sending 0 release)
    (hfree : c.group = true ∨ release ≠ 0 → c.mc_freed = 0) : (c.finish release).Counted := by
  have hhold : c.hold = release := by
    unfold hold
    rw [hc]
    exact Nat.zero_add release
  have hgive : c.mc_freed = 0 → ({ c.copy (-release) with caster := .done } : Cast).Counted := by
    intro hfree
    refine h.of_copy hfree (not_fresh_done rfl) ⟨rfl, rfl, rfl, rfl⟩ ?_
    obtain ⟨-, -, hq, hd, -⟩ := copy_rest (c := c) (k := -release)
    show ((0 : ℕ) : ℤ) + (c.copy (-release)).queued + (c.copy (-release)).delivering = _
    rw [hq, hd, hhold]
    push_cast
    ring
  unfold Cast.finish
  by_cases hg : c.group
  · rw [if_pos hg]
    exact hgive (hfree (.inl hg))
  · rw [if_neg hg]
    by_cases hr : release = 0
    · -- nothing is given back, and the message may be free already
      rw [if_neg (not_not.mpr hr)]
      have href := h.ref
      have hfreed := h.freed
      have hfresh : ¬c.Fresh := by
        rintro (hs | ⟨hs, -⟩)
        · rw [hc] at hs
          cases hs
        · exact hg hs
      rw [hhold, hr] at href
      refine ⟨h.used, h.same, href, ?_, fun hf => absurd hf (not_fresh_done rfl)⟩
      have hdone : ¬({ c with caster := .done } : Cast).Fresh := not_fresh_done rfl
      simpa only [hfresh, hdone, not_false_eq_true, and_true] using hfreed
    · rw [if_pos hr]
      exact hgive (hfree (.inr hr))

/-- A receiver gives its reference back. -/
theorem Counted.drop (h : c.Counted) (hcopy : d.queued + d.delivering + 1 = c.queued + c.delivering)
    (hd : d.group = c.group ∧ d.n = c.n ∧ d.caster = c.caster ∧ d.ref = c.ref ∧ d.used = c.used ∧
      d.mc_freed = c.mc_freed ∧ d.msg_freed = c.msg_freed) : (d.copy (-1)).Counted := by
  obtain ⟨hgroup, hn, hcaster, href, hused, hmc, hmsg⟩ := hd
  have hpos : c.ref ≠ 0 := by
    have href := h.ref
    omega
  have hfree := h.held hpos
  have hfresh : ¬c.Fresh := fun hf => hpos (h.fresh hf)
  obtain ⟨h1, h2, h3, h4⟩ := copy_spec (c := d) (k := -1) (hused.trans h.used)
    (by rw [hmc, hmsg, h.same]) (hmc.trans hfree)
  obtain ⟨hg', hn', hq, hd, hcaster'⟩ := copy_rest (c := d) (k := -1)
  have hhold : (d.copy (-1)).hold = c.hold := by
    unfold hold
    rw [hcaster', hcaster]
  have hfresh' : ¬(d.copy (-1)).Fresh := by
    unfold Fresh
    rw [hcaster', hg', hn', hcaster, hgroup, hn]
    exact hfresh
  refine ⟨h1, h2, ?_, ?_, fun hf => absurd hf hfresh'⟩
  · rw [h3, hhold, hq, hd, href, h.ref]
    omega
  · rw [h4, h3]
    by_cases hz : d.ref + -1 = 0
    · rw [if_pos hz, if_pos ⟨hz, hfresh'⟩]
    · rw [if_neg hz, if_neg fun hz' => hz hz'.1]

/-- Copies change hands, and the count stays. -/
theorem Counted.move (h : c.Counted) (hd : d.used = c.used ∧ d.mc_freed = c.mc_freed ∧
      d.msg_freed = c.msg_freed ∧ d.ref = c.ref) (hfresh : d.Fresh ↔ c.Fresh)
    (hheld : d.hold + d.queued + d.delivering = c.hold + c.queued + c.delivering) : d.Counted := by
  obtain ⟨hused, hmc, hmsg, href⟩ := hd
  refine ⟨hused.trans h.used, ?_, ?_, ?_, ?_⟩
  · rw [hmc, hmsg, h.same]
  · rw [href, h.ref]
    omega
  · rw [hmc, h.freed, href]
    simp only [hfresh]
  · intro hf
    rw [href]
    exact h.fresh (hfresh.mp hf)

theorem touch_eq (h : c.used = false) (hfree : c.mc_freed = 0) : c.touch = c := by
  cases c
  simp_all [touch]

/-- The next receiver has its copy, or the caster keeps the reference. -/
theorem Counted.send {left release left' release' queued : ℕ} (h : c.Counted)
    (hc : c.caster = .sending left release)
    (hheld : left' + release' + queued = left + release + c.queued) :
    ({ c with caster := .sending left' release', queued := queued } : Cast).Counted := by
  refine h.move ⟨rfl, rfl, rfl, rfl⟩ ?_ ?_
  · unfold Fresh
    rw [hc]
    simp
  · have hhold : c.hold = left + release := by
      unfold hold
      rw [hc]
    rw [hhold]
    show left' + release' + queued + c.delivering = _
    omega

theorem Counted.exec (h : c.Counted) (hc : c.Careful e) (hx : c.exec e = some d) : d.Counted := by
  unfold Cast.exec at hx
  split at hx
  case h_1 hcaster =>
    obtain rfl := Option.some.inj hx
    exact h.begin hcaster
  case h_2 hcaster =>
    obtain rfl := Option.some.inj hx
    exact h.send hcaster (by omega)
  case h_3 hcaster =>
    obtain rfl := Option.some.inj hx
    exact h.send hcaster (by omega)
  case h_4 release hcaster =>
    obtain rfl := Option.some.inj hx
    refine h.finish hcaster ?_
    have href := h.ref
    have hhold : c.hold = release := by
      unfold hold
      rw [hcaster]
      exact Nat.zero_add release
    intro hlooks
    by_cases hr : release = 0
    · subst hr
      have hg : c.group = true := hlooks.resolve_right fun hne => hne rfl
      by_cases hn : c.n = 0
      · -- no receivers: nothing has been taken yet
        have hfresh : c.Fresh := by
          refine .inr ⟨hg, hn, ?_⟩
          rw [hcaster]
          rintro ⟨⟩
        rw [h.freed, if_neg fun hz => hz.2 hfresh]
      · have hleft := hc hg hn hcaster
        exact h.held (by omega)
    · exact h.held (by omega)
  case h_5 =>
    split at hx
    · rename_i hq
      obtain rfl := Option.some.inj hx
      have href := h.ref
      rw [touch_eq h.used (h.held (by omega))]
      refine h.move ⟨rfl, rfl, rfl, rfl⟩ Iff.rfl ?_
      show c.hold + (c.queued - 1) + (c.delivering + 1) = _
      omega
    · cases hx
  case h_6 =>
    split at hx
    · rename_i hq
      obtain rfl := Option.some.inj hx
      refine h.drop ?_ ⟨rfl, rfl, rfl, rfl, rfl, rfl, rfl⟩
      show c.queued + (c.delivering - 1) + 1 = _
      omega
    · cases hx
  case h_7 =>
    split at hx
    · rename_i hq
      obtain rfl := Option.some.inj hx
      refine h.drop ?_ ⟨rfl, rfl, rfl, rfl, rfl, rfl, rfl⟩
      show c.queued - 1 + c.delivering + 1 = _
      omega
    · cases hx
  case h_8 => exact hc.elim
  case h_9 => cases hx

theorem reachable_counted (h : (system.restrict Careful).Reachable c) : c.Counted := by
  have hind : (system.restrict Careful).Inductive Counted := by
    refine ⟨?_, ?_⟩
    · rintro c ⟨group, n, rfl⟩
      exact create_counted group n
    · intro c e d _ hc hstep
      exact hc.exec hstep.1 hstep.2
  exact hind.invariant c h

/-- A step that is not careful uses the message when it is free, or frees a part of it only. -/
theorem Counted.careless (h : c.Counted) (hc : ¬c.Careful e) (hx : c.exec e = some d) : ¬d.Sound := by
  intro hd
  cases e with
  | finish =>
    simp only [Careful, Classical.not_imp] at hc
    obtain ⟨hg, hn, hcaster, hidle⟩ := hc
    have href := h.ref
    have hhold : c.hold = 0 := by
      unfold hold
      rw [hcaster]
    have hfreed : c.mc_freed ≠ 0 := by
      have hfresh : ¬c.Fresh := by
        rintro (hs | ⟨-, hs, -⟩)
        · rw [hcaster] at hs
          cases hs
        · exact hn hs
      rw [h.freed, if_pos ⟨by omega, hfresh⟩]
      exact one_ne_zero
    have hused : d.used = true := by
      unfold Cast.exec at hx
      rw [hcaster] at hx
      obtain rfl := Option.some.inj hx
      unfold Cast.finish
      rw [if_pos hg]
      exact copy_used hfreed
    rw [hd.used] at hused
    cases hused
  | no_callback =>
    unfold Cast.exec at hx
    dsimp only at hx
    split at hx
    · obtain rfl := Option.some.inj hx
      have hsame : c.mc_freed + 1 = c.msg_freed := hd.same
      have := h.same
      omega
    · cases hx
  | begin => exact hc trivial
  | send alive => exact hc trivial
  | dispatch => exact hc trivial
  | dispatched => exact hc trivial
  | dropped => exact hc trivial

/-- **The message is freed once, behind the last use.** In a run whose steps are all careful every
state is sound, and the next step leads to a sound state just when it is careful too. -/
theorem sound_iff_careful (h : (system.restrict Careful).Reachable c) :
    c.Sound ∧ ∀ e d, system.step c e d → (d.Sound ↔ c.Careful e) := by
  have hc := reachable_counted h
  refine ⟨hc.sound, fun e d hstep => ⟨?_, ?_⟩⟩
  · intro hd
    by_contra hcareless
    exact hc.careless hcareless hstep hd
  · intro hcareful
    exact (hc.exec hcareful hstep).sound

/-- A cast to a group of one service that is alive and one that is not. -/
theorem sound_iff_careful_dead : ∃ c : Cast, c.caster = .done ∧ c.mc_freed = 1 ∧ c.Sound := by
  obtain ⟨c, hreach, hc⟩ := TSys.reachable_of_exec
    (p := fun c : Cast => c.caster == .done && c.mc_freed == 1)
    (TSys.restrictExec_step (T := system) (C := Careful) fun _ _ _ h => h)
    (s := create true 2) ⟨true, 2, rfl⟩
    (l := [.begin, .send true, .dispatch, .send false, .dispatched, .finish]) (by decide)
  obtain ⟨hdone, hfreed⟩ : c.caster = .done ∧ c.mc_freed = 1 := by simpa using hc
  exact ⟨c, hdone, hfreed, (sound_iff_careful hreach).1⟩

/-- The only receiver is through before the caster looks at the count again. -/
theorem used_after_free : ¬ ∀ c, system.Reachable c → c.Sound := by
  intro hall
  obtain ⟨c, hreach, hc⟩ := TSys.reachable_of_exec (T := system) (p := fun c : Cast => c.used)
    (fun _ _ _ h => h) (s := create true 1) ⟨true, 1, rfl⟩
    (l := [.begin, .send true, .dispatch, .dispatched, .finish]) (by decide)
  rw [(hall c hreach).used] at hc
  cases hc

end Cast

end DnServer.Skynet.Multicast
