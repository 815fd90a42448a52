import DnServer.Bullfight.Agent.ScratchCard

/-!
# The time of a scratch card

`Counted` says that what the agent keeps as time is time that has passed since the time was set
back to 0. Whatever the handlers write keeps it, each on its own condition: a time that runs is
added once, and one that does not run is not added.
-/

namespace DnServer.Bullfight

open DnServer.Lib

namespace Agent

namespace ScratchCard

/-! ## The time of a card -/

variable {c : ScratchCard} {base since : ℤ} {quitting : Bool}

/-- The time that runs by the clock. -/
def running (c : ScratchCard) : ℤ := if c.starttime = 0 then 0 else c.clock - c.starttime

theorem waits_pos {t : ℤ} (h : c.waits = some t) : 240 ≤ t := by
  have hmem : t ∈ task.scratchTimes := List.mem_of_getElem? h
  fin_cases hmem <;> norm_num

theorem waits_isSome : c.waits.isSome ↔ c.scratch < 6 := by
  unfold waits
  rw [isSome_getElem?]
  rfl

/-- The time that is kept is time that has passed. While a player leaves, what ran has been
added already. -/
structure Counted (c : ScratchCard) (base since : ℤ) (quitting : Bool) : Prop where
  clock : 0 < c.clock
  since_le : since ≤ c.clock
  started : c.starttime ≤ c.clock
  early : c.scratchflag = false → ∀ t, c.waits = some t →
    c.gametime + (if quitting = true then 0 else c.running) ≤ base + (c.clock - since)
  due : c.scratchflag = true → ∀ t, c.waits = some t →
    t ≤ c.gametime ∧ t ≤ base + (c.clock - since)
  first : c.scratchflag = true → 240 ≤ c.gametime

theorem running_nonneg (h : c.starttime ≤ c.clock) : 0 ≤ c.running := by
  unfold running
  split <;> omega

theorem Counted.gametime_le (h : c.Counted base since quitting) (hflag : c.scratchflag = false)
    {t : ℤ} (ht : c.waits = some t) : c.gametime ≤ base + (c.clock - since) := by
  have hearly := h.early hflag t ht
  have hrunning := running_nonneg h.started
  split at hearly <;> omega

theorem Counted.quit (h : c.Counted base since quitting) : c.Counted base since true where
  clock := h.clock
  since_le := h.since_le
  started := h.started
  early hflag t ht := by
    have hle := h.gametime_le hflag ht
    rw [if_pos rfl]
    omega
  due := h.due
  first := h.first

theorem Counted.tick (h : c.Counted base since quitting) {now : ℤ} (hnow : c.clock ≤ now) :
    { c with clock := now }.Counted base since quitting where
  clock := lt_of_lt_of_le h.clock hnow
  since_le := h.since_le.trans hnow
  started := h.started.trans hnow
  early hflag t ht := by
    have hearly := h.early hflag t ht
    unfold running at hearly ⊢
    dsimp only
    split at hearly
    · rw [if_pos ‹_›]
      omega
    · rw [if_neg ‹_›]
      split at hearly
      · rw [if_pos ‹_›]
        omega
      · rw [if_neg ‹_›]
        omega
  due hflag t ht := by
    obtain ⟨hgame, hle⟩ := h.due hflag t ht
    refine ⟨hgame, ?_⟩
    show t ≤ base + (now - since)
    omega
  first := h.first

/-- What `CheckGameTime` comes to. -/
theorem checked_cases (c : ScratchCard) :
    (∃ t, c.waits = some t ∧ c.gametime < t ∧ c.checked = c) ∨
    (∃ t, c.waits = some t ∧ t ≤ c.gametime ∧
      c.checked = { c with scratchflag := true, gametime := t }) ∨
    (c.waits = none ∧
      c.checked = { c with gametime := if c.scratch = 6 then 720 else c.gametime }) := by
  unfold checked
  cases hw : c.waits with
  | some t =>
    dsimp only
    by_cases hlt : c.gametime < t
    · rw [if_pos hlt]
      exact .inl ⟨t, rfl, hlt, rfl⟩
    · rw [if_neg hlt]
      exact .inr (.inl ⟨t, rfl, not_lt.mp hlt, rfl⟩)
  | none =>
    dsimp only
    refine .inr (.inr ⟨rfl, ?_⟩)
    split <;> rfl

/-- A time that is over stays over. -/
theorem Counted.checked (h : c.Counted base since quitting) :
    c.checked.Counted base since quitting := by
  obtain ⟨t, -, -, hc⟩ | ⟨t, ht, hle, hc⟩ | ⟨hw, hc⟩ := c.checked_cases
  · rw [hc]
    exact h
  · rw [hc]
    have hbound : t ≤ base + (c.clock - since) := by
      cases hflag : c.scratchflag with
      | false => exact hle.trans (h.gametime_le hflag ht)
      | true => exact (h.due hflag t ht).2
    refine ⟨h.clock, h.since_le, h.started, fun hflag => (nomatch hflag), fun _ u hu => ?_,
      fun _ => waits_pos ht⟩
    obtain rfl : t = u := Option.some.inj (ht.symm.trans hu)
    exact ⟨le_rfl, hbound⟩
  · rw [hc]
    refine ⟨h.clock, h.since_le, h.started, fun _ t ht => ?_, fun _ t ht => ?_, fun hflag => ?_⟩
    · rw [show c.waits = some t from ht] at hw
      cases hw
    · rw [show c.waits = some t from ht] at hw
      cases hw
    · show 240 ≤ (if c.scratch = 6 then 720 else c.gametime)
      have := h.first hflag
      split <;> omega

/-- Where no card is left for today nothing is due. -/
theorem Counted.of_none (hw : c.waits = none) (hclock : 0 < c.clock) (hsince : since ≤ c.clock)
    (hstarted : c.starttime ≤ c.clock) (hfirst : c.scratchflag = true → 240 ≤ c.gametime) :
    c.Counted base since quitting where
  clock := hclock
  since_le := hsince
  started := hstarted
  early _ t ht := by
    rw [ht] at hw
    cases hw
  due _ t ht := by
    rw [ht] at hw
    cases hw
  first := hfirst

/-- The time that runs is added and looked at. -/
theorem Counted.counted (h : c.Counted base since false) (hidle : c.starttime ≠ 0 ∨ ¬c.Idle)
    (quitting : Bool) :
    (c.counted.scratchflag = true → c.counted.Counted base since quitting) ∧
    (c.counted.scratchflag = false → ∀ t, c.waits = some t →
      c.counted.gametime < t ∧ c.counted.gametime ≤ base + (c.clock - since)) := by
  have hstarted := h.started
  have hclock := h.clock
  have hwaits : c.added.waits = c.waits := rfl
  have hgame : c.added.gametime = c.gametime + c.clock - c.starttime := rfl
  have hstay : ∀ t, c.starttime = 0 → c.waits = some t → t ≤ c.gametime := by
    intro t hzero ht
    by_contra hlt
    refine (hidle.resolve_left (not_not.mpr hzero)) ⟨hzero, ?_⟩
    rw [ht]
    simpa using hlt
  have hbound : ∀ t, c.waits = some t → c.scratchflag = false → c.starttime ≠ 0 →
      c.added.gametime ≤ base + (c.clock - since) := by
    intro t ht hflag hzero
    have hearly := h.early hflag t ht
    rw [if_neg (by decide)] at hearly
    unfold running at hearly
    rw [if_neg hzero] at hearly
    omega
  unfold ScratchCard.counted
  obtain ⟨t, ht, hlt, hc⟩ | ⟨t, ht, hle, hc⟩ | ⟨hw, hc⟩ := c.added.checked_cases
  · rw [hc]
    refine ⟨fun hflag => ?_, fun hflag u hu => ?_⟩
    · have hdue := (h.due hflag t ht).1
      omega
    · obtain rfl : t = u := Option.some.inj (ht.symm.trans hu)
      refine ⟨hlt, hbound t hu hflag fun hzero => ?_⟩
      have := hstay t hzero hu
      omega
  · rw [hc]
    refine ⟨fun _ => ?_, fun hflag => nomatch hflag⟩
    have ht' : c.waits = some t := ht
    refine ⟨hclock, h.since_le, hstarted, fun hflag => (nomatch hflag), fun _ u hu => ?_,
      fun _ => waits_pos ht'⟩
    obtain rfl : t = u := Option.some.inj (ht'.symm.trans hu)
    refine ⟨le_rfl, ?_⟩
    show t ≤ base + (c.clock - since)
    cases hflag : c.scratchflag with
    | true => exact (h.due hflag t ht').2
    | false =>
      by_cases hzero : c.starttime = 0
      · exact (hstay t hzero ht').trans (h.gametime_le hflag ht')
      · exact hle.trans (hbound t ht' hflag hzero)
  · rw [hc]
    refine ⟨fun hflag => ?_, fun _ t ht => ?_⟩
    · refine .of_none hw hclock h.since_le hstarted fun _ => ?_
      have hfirst := h.first hflag
      show 240 ≤ (if c.added.scratch = 6 then 720 else c.added.gametime)
      split <;> omega
    · rw [← hwaits, hw] at ht
      cases ht

/-- What the comparison leaves as it was. -/
theorem counted_frame (c : ScratchCard) : c.counted.clock = c.clock ∧
    c.counted.starttime = c.starttime ∧ c.counted.scratch = c.scratch ∧
    c.counted.seatid = c.seatid ∧ c.counted.timed = c.timed ∧
    c.counted.roomid = c.roomid := by
  unfold ScratchCard.counted
  obtain ⟨t, -, -, hc⟩ | ⟨t, -, -, hc⟩ | ⟨-, hc⟩ := c.added.checked_cases <;> rw [hc] <;>
    exact ⟨rfl, rfl, rfl, rfl, rfl, rfl⟩

theorem lockmoney_counted (c : ScratchCard) : c.counted.lockmoney = c.lockmoney := by
  unfold ScratchCard.counted
  obtain ⟨t, -, -, hc⟩ | ⟨t, -, -, hc⟩ | ⟨-, hc⟩ := c.added.checked_cases <;> rw [hc] <;> rfl

theorem waits_counted (c : ScratchCard) : c.counted.waits = c.waits := by
  unfold waits
  rw [(counted_frame c).2.2.1]

/-- The time that ran is counted and starts anew. -/
theorem Counted.resume (h : c.Counted base since false) (hzero : c.starttime ≠ 0) :
    { c.counted with starttime := c.counted.clock }.Counted base since false := by
  have hclock := (counted_frame c).1
  obtain ⟨hover, hearly⟩ := h.counted (.inl hzero) false
  have hpos := h.clock
  refine ⟨hclock.symm ▸ hpos, hclock.symm ▸ h.since_le, le_rfl, fun hflag t ht => ?_,
    fun hflag t ht => (hover hflag).due hflag t ht, fun hflag => (hover hflag).first hflag⟩
  obtain ⟨-, hle⟩ := hearly hflag t ((waits_counted c).symm.trans ht)
  have hrun : running { c.counted with starttime := c.counted.clock } = 0 := by
    unfold running
    rw [if_neg (by rw [hclock]; exact hpos.ne')]
    exact sub_self _
  rw [if_neg (by decide), hrun, add_zero, hclock]
  exact hle

/-- What the handlers that keep the time do to it. -/
theorem Counted.seated (h : c.Counted base since false) : c.seated.Counted base since false := by
  unfold ScratchCard.seated
  by_cases htimed : c.timed = true
  · rw [if_pos htimed]
    refine ⟨h.clock, h.since_le, le_rfl, fun hflag t ht => ?_, h.due, h.first⟩
    have hrun : running { c with starttime := c.clock, seatid := true } = 0 := by
      unfold running
      rw [if_neg h.clock.ne']
      exact sub_self _
    rw [if_neg (by decide), hrun, add_zero]
    exact h.gametime_le hflag ht
  · rw [if_neg htimed]
    exact ⟨h.clock, h.since_le, h.started, h.early, h.due, h.first⟩

theorem Counted.stopped (h : c.Counted base since quitting) {roomid seatid timed : Bool} :
    ScratchCard.Counted
      { c with starttime := 0, roomid := roomid, seatid := seatid, timed := timed } base since
      false := by
  refine ⟨h.clock, h.since_le, h.clock.le, fun hflag t ht => ?_, h.due, h.first⟩
  rw [if_neg (by decide)]
  unfold running
  rw [if_pos rfl, add_zero]
  exact h.gametime_le hflag ht

/-- The time that ran is added once. -/
theorem Counted.added (h : c.Counted base since false) (hflag : c.scratchflag = false)
    (hzero : c.starttime ≠ 0) : c.added.Counted base since true := by
  refine ⟨h.clock, h.since_le, h.started, fun _ t ht => ?_, fun hover => ?_, fun hover => ?_⟩
  · have hearly := h.early hflag t ht
    unfold running at hearly
    rw [if_neg (by decide), if_neg hzero] at hearly
    rw [if_pos rfl, add_zero]
    show c.gametime + c.clock - c.starttime ≤ base + (c.clock - since)
    omega
  · rw [show c.scratchflag = true from hover] at hflag
    cases hflag
  · rw [show c.scratchflag = true from hover] at hflag
    cases hflag

theorem Counted.stood (h : c.Counted base since false)
    (hruns : c.timed = true → c.starttime ≠ 0) : c.stood.Counted base since false := by
  unfold ScratchCard.stood
  split
  · rename_i hadd
    exact (h.added hadd.1 (hruns hadd.2)).stopped
  · exact h.stopped

theorem Counted.leaving (h : c.Counted base since false)
    (hruns : c.seatid = true → c.timed = true → c.starttime ≠ 0) :
    c.leaving.Counted base since true := by
  unfold ScratchCard.leaving
  split
  · rename_i hadd
    exact h.added hadd.2.1 (hruns hadd.1 hadd.2.2)
  · exact h.quit

theorem Counted.entered (h : c.Counted base since false) : c.entered.Counted base since false := by
  unfold ScratchCard.entered
  split
  · exact h.checked
  · exact h

theorem Counted.resumed (h : c.Counted base since false) {ret : Option Bool}
    (hruns : c.seatid = true → ret.getD c.timed = true → c.starttime ≠ 0) :
    (c.resumed ret).Counted base since false := by
  have hc : ScratchCard.Counted
      { c with roomid := c.roomid || ret.isSome, timed := ret.getD c.timed } base since false :=
    ⟨h.clock, h.since_le, h.started, h.early, h.due, h.first⟩
  unfold ScratchCard.resumed
  dsimp only
  split
  · rename_i hadd
    exact hc.resume (hruns hadd.1 hadd.2)
  · exact hc

/-- The time counts on from what there is, for the first card of a day. -/
theorem Counted.rebased (h : c.Counted base since quitting) :
    { c with scratch := 0 }.Counted (c.gametime + c.running) c.clock quitting := by
  have hrunning := running_nonneg h.started
  refine ⟨h.clock, le_rfl, h.started, fun _ t _ => ?_, fun hover t ht => ?_, h.first⟩
  · show c.gametime + (if quitting = true then 0 else c.running) ≤
      c.gametime + c.running + (c.clock - c.clock)
    split <;> omega
  · obtain rfl : 240 = t := Option.some.inj ht
    refine ⟨h.first hover, ?_⟩
    show 240 ≤ c.gametime + c.running + (c.clock - c.clock)
    have := h.first hover
    omega

end ScratchCard

end Agent

end DnServer.Bullfight
