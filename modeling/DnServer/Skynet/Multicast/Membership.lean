import DnServer.Skynet.Multicast.Group

/-!
# Who gets a cast

The members of a group are compared with the set that the enters and leaves give one
after the other. They differ where a service that left enters again before the next
cast.

* `Tracks.faithful_iff`: what a combination takes in and out in its own order, against
  the order of the commands; `reentered_lost` enters again before it.
-/

namespace DnServer.Skynet.Multicast

namespace Command

/-- Enters and leaves one by one. -/
def apply (S : Set ℕ) : Command → Set ℕ
  | .enter handle => insert handle S
  | .leave handle => S \ {handle}
  | .cast _ => S

/-- Every cast goes to the services in the set that are alive. -/
def Faithful (g : Group) (S : Set ℕ) : List Command → Prop
  | [] => True
  | .enter handle :: cs => Faithful (g.entergroup handle) (apply S (.enter handle)) cs
  | .leave handle :: cs => Faithful (g.leavegroup handle) (apply S (.leave handle)) cs
  | .cast alive :: cs =>
    (∀ x, x ∈ (g.castgroup alive).1 ↔ x ∈ S ∧ alive x = true) ∧ Faithful (g.castgroup alive).2 S cs

/-- An enter or a leave of `x`. -/
def about (x : ℕ) : Command → Bool
  | .enter handle => handle = x
  | .leave handle => handle = x
  | .cast _ => false

/-- `x` leaves, and then enters and stays. -/
def Reenters (x : ℕ) (batch : List Command) : Prop :=
  .leave x ∈ batch ∧ (batch.filter (about x)).getLast? = some (.enter x)

/-- No service that is alive at a cast leaves and enters again between it and the cast before. -/
def Ordered (batch : List Command) : List Command → Prop
  | [] => True
  | .enter handle :: cs => Ordered (batch ++ [.enter handle]) cs
  | .leave handle :: cs => Ordered (batch ++ [.leave handle]) cs
  | .cast alive :: cs => (∀ x, alive x = true → ¬Reenters x batch) ∧ Ordered [] cs

/-- A member that a cast finds dead is not alive at a later one; `D` are those found dead. -/
def StaysDead (S D : Set ℕ) : List Command → Prop
  | [] => True
  | .enter handle :: cs => StaysDead (apply S (.enter handle)) D cs
  | .leave handle :: cs => StaysDead (apply S (.leave handle)) D cs
  | .cast alive :: cs =>
    (∀ x ∈ D, alive x = false) ∧ StaysDead S (D ∪ {x | x ∈ S ∧ alive x = false}) cs

/-- The handle of the command is one of the node. -/
def OwnHandle (harbor : ℕ) : Command → Prop
  | .enter handle => Own harbor handle
  | .leave handle => Own harbor handle
  | .cast _ => True

def entered : Command → Option ℕ
  | .enter handle => some handle
  | _ => none

def left : Command → Option ℕ
  | .leave handle => some handle
  | _ => none

end Command

open Command

variable {S S₀ D : Set ℕ} {batch : List Command} {c : Command} {x harbor : ℕ} {g : Group}

/-! ## A batch -/

theorem filter_about_concat : ((batch ++ [c]).filter (about x)).getLast? =
    if about x c then some c else (batch.filter (about x)).getLast? := by
  rw [List.filter_append]
  cases hc : about x c with
  | true => simp [hc]
  | false => simp [hc]

/-- Behind a batch `x` is in the set as the last command about it says. -/
theorem mem_foldl_apply : x ∈ batch.foldl apply S₀ ↔
    (batch.filter (about x)).getLast? = some (.enter x) ∨
      (batch.filter (about x)).getLast? = none ∧ x ∈ S₀ := by
  induction batch using List.reverseRecOn with
  | nil => simp
  | append_singleton batch c ih =>
    rw [List.foldl_append, List.foldl_cons, List.foldl_nil, filter_about_concat]
    cases c with
    | enter y =>
      by_cases hy : y = x
      · subst hy
        simp [apply, about]
      · simp [apply, about, hy, Ne.symm hy, ih]
    | leave y =>
      by_cases hy : y = x
      · subst hy
        simp [apply, about]
      · simp [apply, about, hy, Ne.symm hy, ih]
    | cast alive => simp [apply, about, ih]

theorem leave_mem_iff : .leave x ∈ batch ↔ x ∈ batch.filterMap left := by
  rw [List.mem_filterMap]
  constructor
  · intro h
    exact ⟨_, h, rfl⟩
  · rintro ⟨c, hc, hx⟩
    cases c with
    | leave y =>
      obtain rfl := Option.some.inj hx
      exact hc
    | enter y => cases hx
    | cast alive => cases hx

theorem enter_mem_iff : .enter x ∈ batch ↔ x ∈ batch.filterMap entered := by
  rw [List.mem_filterMap]
  constructor
  · intro h
    exact ⟨_, h, rfl⟩
  · rintro ⟨c, hc, hx⟩
    cases c with
    | enter y =>
      obtain rfl := Option.some.inj hx
      exact hc
    | leave y => cases hx
    | cast alive => cases hx

@[simp] theorem entered_singleton (y : ℕ) : [Command.enter y].filterMap entered = [y] := rfl

/-- Nobody leaves: the set is what it was, with those who enter. -/
theorem mem_foldl_of_not_left (hleft : x ∉ batch.filterMap left) :
    x ∈ batch.foldl apply S₀ ↔ x ∈ S₀ ∨ x ∈ batch.filterMap entered := by
  induction batch using List.reverseRecOn with
  | nil => simp
  | append_singleton batch c ih =>
    rw [List.filterMap_append, List.mem_append, not_or] at hleft
    rw [List.foldl_append, List.foldl_cons, List.foldl_nil, List.filterMap_append, List.mem_append]
    have ih := ih hleft.1
    cases c with
    | enter y =>
      rw [apply, Set.mem_insert_iff, ih, entered_singleton, List.mem_singleton]
      tauto
    | leave y =>
      have hy : x ≠ y := by simpa [left] using hleft.2
      simp [apply, entered, ih, hy]
    | cast alive => simp [apply, entered, ih]

/-- Somebody who leaves is in the set if he enters again. -/
theorem mem_foldl_of_left (hleft : .leave x ∈ batch) :
    x ∈ batch.foldl apply S₀ ↔ Reenters x batch := by
  rw [mem_foldl_apply]
  have hsome : (batch.filter (about x)).getLast? ≠ none := by
    rw [ne_eq, List.getLast?_eq_none_iff, List.filter_eq_nil_iff]
    intro hnone
    exact hnone _ hleft (by simp [about])
  constructor
  · rintro (h | h)
    · exact ⟨hleft, h⟩
    · exact absurd h.1 hsome
  · intro h
    exact .inl h.2

/-! ## The invariant -/

/-- Between two casts: the members are those of the set at the last cast, but for services that
were found dead, and the queues hold what has come since. -/
structure Tracks (harbor : ℕ) (D : Set ℕ) (batch : List Command) (g : Group) (S : Set ℕ) : Prop where
  members : ∃ m S₀, g.Has m ∧ S = batch.foldl apply S₀ ∧ (∀ x ∉ D, x ∈ m ↔ x ∈ S₀) ∧
    ∀ x ∈ m, Own harbor x
  enters : g.enter_queue = batch.filterMap entered
  leaves : ∃ dead, g.leave_queue = dead ++ batch.filterMap left ∧ ∀ x ∈ dead, x ∈ D ∧ Own harbor x
  own : ∀ c ∈ batch, c.OwnHandle harbor

theorem newgroup_tracks : Tracks harbor ∅ [] Group.newgroup ∅ where
  members := ⟨[], ∅, ⟨.nil, rfl, .nil⟩, rfl, by simp, by simp⟩
  enters := rfl
  leaves := ⟨[], rfl, by simp⟩
  own := by simp

theorem Tracks.enter (h : Tracks harbor D batch g S) (hx : Own harbor x) :
    Tracks harbor D (batch ++ [.enter x]) (g.entergroup x) (apply S (.enter x)) where
  members := by
    obtain ⟨m, S₀, hm, hS, hmem, hown⟩ := h.members
    refine ⟨m, S₀, ⟨hm.words, hm.number, hm.sorted⟩, ?_, hmem, hown⟩
    rw [List.foldl_append, ← hS]
    rfl
  enters := by
    rw [List.filterMap_append, ← h.enters]
    rfl
  leaves := by
    obtain ⟨dead, hleave, hdead⟩ := h.leaves
    refine ⟨dead, ?_, hdead⟩
    rw [List.filterMap_append]
    exact hleave.trans (congrArg _ (List.append_nil _).symm)
  own := by
    intro c hc
    rcases List.mem_append.mp hc with hc | hc
    · exact h.own c hc
    · rw [List.mem_singleton.mp hc]
      exact hx

theorem Tracks.leave (h : Tracks harbor D batch g S) (hx : Own harbor x) :
    Tracks harbor D (batch ++ [.leave x]) (g.leavegroup x) (apply S (.leave x)) where
  members := by
    obtain ⟨m, S₀, hm, hS, hmem, hown⟩ := h.members
    refine ⟨m, S₀, ⟨hm.words, hm.number, hm.sorted⟩, ?_, hmem, hown⟩
    rw [List.foldl_append, ← hS]
    rfl
  enters := by
    rw [List.filterMap_append]
    exact h.enters.trans (List.append_nil _).symm
  leaves := by
    obtain ⟨dead, hleave, hdead⟩ := h.leaves
    refine ⟨dead, ?_, hdead⟩
    rw [List.filterMap_append, ← List.append_assoc, ← hleave]
    rfl
  own := by
    intro c hc
    rcases List.mem_append.mp hc with hc | hc
    · exact h.own c hc
    · rw [List.mem_singleton.mp hc]
      exact hx

/-- The members at a cast. -/
theorem Tracks.combine (h : Tracks harbor D batch g S) :
    ∃ m, g.combine_queue.Has m ∧ (∀ x ∈ m, Own harbor x) ∧ (∀ x ∉ D, x ∈ m → x ∈ S) ∧
      ∀ x ∉ D, (x ∈ m ↔ x ∈ S) ↔ ¬Reenters x batch := by
  obtain ⟨m, S₀, hm, hS, hmem, hown⟩ := h.members
  obtain ⟨dead, hleave, hdead⟩ := h.leaves
  have hentered : ∀ a ∈ g.enter_queue, Own harbor a := by
    intro a ha
    rw [h.enters, ← enter_mem_iff] at ha
    exact h.own _ ha
  have hleft : ∀ a ∈ g.leave_queue, Own harbor a := by
    intro a ha
    rw [hleave, List.mem_append, ← leave_mem_iff] at ha
    rcases ha with ha | ha
    · exact (hdead a ha).2
    · exact h.own _ ha
  obtain ⟨m', hm', hmem'⟩ := hm.combine_queue hentered hleft
  -- what a service that was not found dead is a member by
  have hiff : ∀ x ∉ D, x ∈ m' ↔ (x ∈ S₀ ∨ x ∈ batch.filterMap entered) ∧ x ∉ batch.filterMap left := by
    intro x hx
    rw [hmem', hmem x hx, h.enters, hleave, List.mem_append]
    have : x ∉ dead := fun hxd => hx (hdead x hxd).1
    tauto
  refine ⟨m', hm', ?_, ?_, ?_⟩
  · intro x hx
    rcases ((hmem' x).mp hx).1 with hx | hx
    · exact hown x hx
    · exact hentered x hx
  · intro x hx hxm
    obtain ⟨hin, hout⟩ := (hiff x hx).mp hxm
    rw [hS, mem_foldl_of_not_left hout]
    exact hin
  · intro x hx
    by_cases hl : x ∈ batch.filterMap left
    · have hl' := leave_mem_iff.mpr hl
      rw [hiff x hx, hS, mem_foldl_of_left hl']
      tauto
    · rw [hiff x hx, hS, mem_foldl_of_not_left hl]
      have hnot : ¬Reenters x batch := fun hr => hl (leave_mem_iff.mp hr.1)
      tauto

theorem foldl_leavegroup (l : List ℕ) (g : Group) :
    (l.foldl Group.leavegroup g).leave_queue = g.leave_queue ++ l ∧
      (l.foldl Group.leavegroup g).enter_queue = g.enter_queue ∧
      (l.foldl Group.leavegroup g).data = g.data ∧
      (l.foldl Group.leavegroup g).number = g.number := by
  induction l generalizing g with
  | nil => simp
  | cons a l ih =>
    obtain ⟨h1, h2, h3, h4⟩ := ih (g.leavegroup a)
    rw [List.foldl_cons]
    refine ⟨h1.trans ?_, h2, h3, h4⟩
    simp [Group.leavegroup]

/-- A cast goes to the right services just when none of them has entered again. -/
theorem Tracks.cast {alive : ℕ → Bool} (h : Tracks harbor D batch g S)
    (hdead : ∀ x ∈ D, alive x = false) :
    ((∀ x, x ∈ (g.castgroup alive).1 ↔ x ∈ S ∧ alive x = true) ↔
        ∀ x, alive x = true → ¬Reenters x batch) ∧
      ((∀ x, alive x = true → ¬Reenters x batch) →
        Tracks harbor (D ∪ {x | x ∈ S ∧ alive x = false}) [] (g.castgroup alive).2 S) := by
  obtain ⟨m, hm, hown, hsub, hiff⟩ := h.combine
  have hlive : ∀ x, alive x = true → x ∉ D := by
    intro x hx hxD
    rw [hdead x hxD] at hx
    cases hx
  have hcast : ∀ x, x ∈ (g.castgroup alive).1 ↔ x ∈ m ∧ alive x = true := by
    intro x
    unfold Group.castgroup
    dsimp only
    rw [hm.members, List.mem_filter]
  refine ⟨?_, ?_⟩
  · constructor
    · intro hall x hx
      rw [← hiff x (hlive x hx)]
      have hsame := hall x
      rw [hcast] at hsame
      tauto
    · intro hordered x
      rw [hcast]
      by_cases hx : alive x = true
      · have hsame := (hiff x (hlive x hx)).mpr (hordered x hx)
        tauto
      · tauto
  · intro hordered
    obtain ⟨h1, h2, h3, h4⟩ := foldl_leavegroup (m.filter (! alive ·)) g.combine_queue
    have hgroup : (g.castgroup alive).2 =
        (m.filter (! alive ·)).foldl Group.leavegroup g.combine_queue := by
      unfold Group.castgroup
      dsimp only
      rw [hm.members]
    rw [hgroup]
    refine ⟨⟨m, S, ⟨?_, ?_, hm.sorted⟩, rfl, ?_, hown⟩, h2, ⟨m.filter (! alive ·), ?_, ?_⟩, by simp⟩
    · rw [h3]
      exact hm.words
    · rw [h4]
      exact hm.number
    · intro x hx
      rw [Set.mem_union, not_or] at hx
      by_cases halive : alive x = true
      · exact (hiff x hx.1).mpr (hordered x halive)
      · have hxS : x ∉ S := fun hxS => hx.2 ⟨hxS, by simpa using halive⟩
        exact ⟨fun hxm => absurd (hsub x hx.1 hxm) hxS, fun hxs => absurd hxs hxS⟩
    · rw [h1]
      exact (List.append_nil _).symm
    · intro x hx
      obtain ⟨hxm, halive⟩ := List.mem_filter.mp hx
      refine ⟨?_, hown x hxm⟩
      by_cases hxD : x ∈ D
      · exact .inl hxD
      · exact .inr ⟨hsub x hxD hxm, by simpa using halive⟩

/-! ## Every run -/

theorem Tracks.faithful_iff (cs : List Command) (h : Tracks harbor D batch g S)
    (hown : ∀ c ∈ cs, c.OwnHandle harbor) (hdead : StaysDead S D cs) :
    Faithful g S cs ↔ Ordered batch cs := by
  induction cs generalizing g S D batch with
  | nil => exact Iff.rfl
  | cons c cs ih =>
    have hrest : ∀ c ∈ cs, c.OwnHandle harbor := fun c hc => hown c (List.mem_cons_of_mem _ hc)
    have hfirst := hown c (List.mem_cons_self ..)
    cases c with
    | enter x => exact ih (h.enter hfirst) hrest hdead
    | leave x => exact ih (h.leave hfirst) hrest hdead
    | cast alive =>
      obtain ⟨hiff, hnext⟩ := h.cast hdead.1
      constructor
      · rintro ⟨hcast, hfaithful⟩
        have hordered := hiff.mp hcast
        exact ⟨hordered, (ih (hnext hordered) hrest hdead.2).mp hfaithful⟩
      · rintro ⟨hordered, hlater⟩
        exact ⟨hiff.mpr hordered, (ih (hnext hordered) hrest hdead.2).mpr hlater⟩

/-- **Casts go where the commands say just when nobody leaves and enters again between two casts.**
Handles are those of the node, and services that were found dead do not come back. -/
theorem faithful_iff_ordered (cs : List Command) (hown : ∀ c ∈ cs, c.OwnHandle harbor)
    (hdead : StaysDead ∅ ∅ cs) : Faithful Group.newgroup ∅ cs ↔ Ordered [] cs :=
  newgroup_tracks.faithful_iff cs hown hdead

/-- A service enters, gets a cast, and leaves. -/
def enterCastLeave : List Command := [.enter 5, .cast fun _ => true, .leave 5, .cast fun _ => true]

theorem faithful_iff_ordered_leave : Faithful Group.newgroup ∅ enterCastLeave := by
  refine (@faithful_iff_ordered 0 enterCastLeave ?_ ?_).mpr ?_
  · simp [enterCastLeave, OwnHandle, Own]
  · simp [enterCastLeave, StaysDead, apply]
  · simp [enterCastLeave, Ordered, Reenters, about]

/-- A service leaves and enters again, and the next cast does not go to it. -/
theorem reentered_lost : ¬ ∀ cs : List Command, (∀ c ∈ cs, c.OwnHandle 0) → StaysDead ∅ ∅ cs →
    Faithful Group.newgroup ∅ cs := by
  intro hall
  have hown : ∀ c ∈ [Command.leave 5, .enter 5, .cast fun _ => true], c.OwnHandle 0 := by
    simp [OwnHandle, Own]
  have hdead : StaysDead ∅ ∅ [Command.leave 5, .enter 5, .cast fun _ => true] := by
    simp [StaysDead]
  have hordered := (newgroup_tracks.faithful_iff _ hown hdead).mp (hall _ hown hdead)
  simp [Ordered, Reenters, about] at hordered

end DnServer.Skynet.Multicast
