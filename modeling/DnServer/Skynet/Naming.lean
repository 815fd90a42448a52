import DnServer.Skynet.Names

/-!
# Names and services over a run

Services register and are retired while names are bound to handles, any handles, in
any order. The array of names is sorted all the time and answers as the history of
the bindings says. Only a retirement that finds its service takes the names away, so a
name that is bound to a handle without a service stays.

* `name_table_sound`: `Sorted` and `Holds` for the array, `Agrees` with the history;
  each operation by its lemma in `Names`.
* `names_of_live`: the entries of a retired service are taken out (`Good.retire`), so
  only a binding to a handle without one makes a dead name; `dead_name_found` finds one.
-/

namespace DnServer.Skynet

open DnServer.Lib

/-- `ctx != NULL && skynet_context_handle(ctx) == handle`. -/
def Handles.finds (w : Handles) (handle : ℕ) : Bool :=
  ((w.H.slot (w.H.hash handle)).bind w.ctx).any fun x => x.handle = handle

/-- The handles, and the array of the names; `H.name` is the array's content as a list. -/
structure Registry where
  handles : Handles
  names : NameArray

namespace Registry

/-- `skynet_handle_init`. -/
def init (harbor : ℕ) : Registry := ⟨⟨.init harbor, fun _ => none⟩, .init⟩

/-- `skynet_handle_register` of a new context. -/
def register (s : Registry) (c : ℕ) : Option (ℕ × Registry) := do
  let (handle, w) ← (s.handles.create c).register c
  return (handle, { s with handles := w })

/-- `skynet_handle_retire`. -/
def retire (s : Registry) (handle : ℕ) : Option Registry := do
  let w ← s.handles.retire handle
  if s.handles.finds handle then
    let names ← s.names.compact handle
    return ⟨w, names⟩
  else
    return ⟨w, s.names⟩

/-- `skynet_handle_grab`. -/
def grab (s : Registry) (handle : ℕ) : Option (Option ℕ × Registry) := do
  let (c, w) ← s.handles.grab handle
  return (c, { s with handles := w })

/-- `skynet_handle_namehandle`; the flag says whether it returns the name. -/
def namehandle (s : Registry) (handle : ℕ) (name : List UInt8) : Option (Bool × Registry) := do
  let (named, names) ← s.names.insertName name handle
  return (named, ⟨{ s.handles with H := { s.handles.H with name := names.toList } }, names⟩)

/-- `skynet_handle_findname`. -/
def findname (s : Registry) (name : List UInt8) : Option ℕ := s.names.findname name

end Registry

/-! ## Any order of the operations -/

inductive Call
  | register (c : ℕ)
  | retire (handle : ℕ)
  | grab (handle : ℕ)
  | namehandle (handle : ℕ) (name : List UInt8)

open Handles (Live)

/-- Any handle is named, retired or grabbed, and every context that registers is new. -/
inductive Called : Registry × Live → Call → Registry × Live → Prop
  | register {s s' live c handle} : s.handles.ctx c = none → s.register c = some (handle, s') →
      Called (s, live) (.register c) (s', (handle, c) :: live)
  | retire {s s' live handle} : s.retire handle = some s' →
      Called (s, live) (.retire handle) (s', live.filter fun e => e.1 ≠ handle)
  | grab {s s' live handle c} : s.grab handle = some (c, s') →
      Called (s, live) (.grab handle) (s', live)
  | namehandle {s s' live handle name named} : IsCString name →
      s.namehandle handle name = some (named, s') →
      Called (s, live) (.namehandle handle name) (s', live)

def registry : TSys (Registry × Live) Call where
  init p := ∃ harbor, p = (.init harbor, [])
  step := Called

/-! ## The history of the names -/

/-- What the names depend on: a name was bound, or a service was retired. -/
inductive NameEvent
  | named (handle : ℕ) (name : List UInt8)
  | retired (handle : ℕ)

/-- The handle of the last binding of the name whose handle is not among those retired since;
the newest event comes first. -/
def boundBy (name : List UInt8) : List ℕ → List NameEvent → ℕ
  | _, [] => 0
  | retired, .named handle name' :: history =>
    if name' = name ∧ handle ∉ retired then handle else boundBy name retired history
  | retired, .retired handle :: history => boundBy name (handle :: retired) history

/-- A call of `namehandle` that returns the name binds it. A handle is retired when its service
is found and leaves the table; for another handle the call retires nothing. -/
def note (p : Registry × Live) (call : Call) (_ : Registry × Live) (history : List NameEvent) :
    List NameEvent :=
  match call with
  | .namehandle handle name =>
    if (p.1.namehandle handle name).any (·.1) then .named handle name :: history else history
  | .retire handle => if p.1.handles.finds handle then .retired handle :: history else history
  | _ => history

/-- The registry with the history of the names. -/
def naming : TSys ((Registry × Live) × List NameEvent) Call :=
  registry.observe (fun _ => []) note

/-! ## What the operations do -/

namespace Registry

open NameArray

variable {s s' : Registry} {live : Live}

/-- The array holds the names as a sorted list, and the handles are as they should be. -/
structure Good (s : Registry) (live : Live) : Prop where
  fine : s.handles.Fine live
  holds : s.names.Holds s.handles.H.name
  sorted : Sorted s.handles.H.name

theorem init_good (harbor : ℕ) : (init harbor).Good [] where
  fine := Handles.init_fine harbor
  holds := init_holds
  sorted := .nil

/-- The service of a handle is found just when it lives. -/
theorem finds_iff {w : Handles} (h : w.Fine live) (handle : ℕ) :
    w.finds handle = true ↔ handle ∈ live.map Prod.fst := by
  constructor
  · intro hfinds
    obtain ⟨x, hx, heq⟩ := (Option.any_eq_true _ _).mp hfinds
    obtain ⟨c, hc, hctx⟩ := Option.bind_eq_some_iff.mp hx
    obtain ⟨handle', hl, -⟩ := (h.slots _ c).mp hc
    obtain ⟨y, hy, hyh⟩ := h.handles _ _ hl
    rw [hctx] at hy
    obtain rfl := Option.some.inj hy
    rw [← of_decide_eq_true heq, hyh]
    exact List.mem_map_of_mem hl
  · intro hmem
    obtain ⟨⟨handle', c⟩, hl, rfl⟩ := List.mem_map.mp hmem
    obtain ⟨x, hx, hxh⟩ := h.handles _ _ hl
    have hbind : (w.H.slot (w.H.hash handle')).bind w.ctx = some x := by
      rw [h.slot hl]
      exact hx
    rw [Handles.finds, hbind]
    exact decide_eq_true hxh

/-- The names of the table change in a retirement alone. -/
theorem grow_name {w w' : Handles} (h : w.grow = some w') : w'.H.name = w.H.name := by
  unfold Handles.grow at h
  by_cases hmask : w.H.slot_size * 2 - 1 ≤ HANDLE_MASK
  · rw [if_neg (not_not.mpr hmask)] at h
    obtain ⟨new_slot, -, hw'⟩ := Option.bind_eq_some_iff.mp h
    cases hw'
    rfl
  · rw [if_pos hmask] at h
    cases h

theorem registerLoop_name {c handle : ℕ} {w' : Handles} : ∀ {n} {w : Handles},
    Handles.registerLoop n w c = some (handle, w') → w'.H.name = w.H.name
  | 0, _, h => by cases h
  | n + 1, w, h => by
    rw [Handles.registerLoop] at h
    cases hprobe : w.H.probe with
    | some tried =>
      rw [hprobe] at h
      obtain ⟨x, -, hw'⟩ := Option.bind_eq_some_iff.mp h
      cases hw'
      rfl
    | none =>
      rw [hprobe] at h
      obtain ⟨w₁, hgrow, hrest⟩ := Option.bind_eq_some_iff.mp h
      exact (registerLoop_name hrest).trans (grow_name hgrow)

theorem grab_name {w w' : Handles} (hw : w.Fine live) {handle : ℕ} {c : Option ℕ}
    (h : w.grab handle = some (c, w')) : w'.H.name = w.H.name := by
  obtain ⟨hlive, hother⟩ := hw.grab handle
  by_cases hmem : handle ∈ live.map Prod.fst
  · obtain ⟨⟨handle', c'⟩, hl, rfl⟩ := List.mem_map.mp hmem
    obtain ⟨x, -, hgrab⟩ := hlive c' hl
    rw [h] at hgrab
    rw [(Prod.mk.inj (Option.some.inj hgrab)).2]
  · have hgrab := hother hmem
    rw [h] at hgrab
    rw [(Prod.mk.inj (Option.some.inj hgrab)).2]

theorem retire_name {w w' : Handles} (h : w.Fine live) {handle : ℕ}
    (hretire : w.retire handle = some w') :
    w'.H.name = if w.finds handle then others handle w.H.name else w.H.name := by
  by_cases hmem : handle ∈ live.map Prod.fst
  · rw [if_pos ((finds_iff h handle).mpr hmem)]
    obtain ⟨⟨handle', c⟩, hl, rfl⟩ := List.mem_map.mp hmem
    obtain ⟨x, hx, hxh⟩ := h.handles _ _ hl
    rw [Handles.retire_of_slot (h.slot hl) hx hxh] at hretire
    cases hretire
    rfl
  · rw [if_neg fun hfinds => hmem ((finds_iff h handle).mp hfinds)]
    rw [(h.retire_other hmem).1] at hretire
    cases hretire
    rfl

/-- A registration leaves the names. -/
theorem Good.register (h : s.Good live) {c handle : ℕ} (hc : s.handles.ctx c = none)
    (hreg : s.register c = some (handle, s')) :
    s'.Good ((handle, c) :: live) ∧ s'.names = s.names ∧ s'.handles.H.name = s.handles.H.name := by
  obtain ⟨⟨handle', w⟩, hloop, heq⟩ := Option.bind_eq_some_iff.mp hreg
  obtain ⟨rfl, rfl⟩ := Prod.mk.inj (Option.some.inj heq)
  have hname : w.H.name = (s.handles.create c).H.name := registerLoop_name hloop
  refine ⟨⟨(h.fine.register_eq_some hc hloop).1, ?_, ?_⟩, rfl, hname⟩
  · exact hname ▸ h.holds
  · exact hname ▸ h.sorted

theorem Good.grab (h : s.Good live) {handle : ℕ} {c : Option ℕ}
    (hgrab : s.grab handle = some (c, s')) :
    s'.Good live ∧ s'.names = s.names ∧ s'.handles.H.name = s.handles.H.name := by
  obtain ⟨⟨c', w⟩, hw, heq⟩ := Option.bind_eq_some_iff.mp hgrab
  obtain ⟨rfl, rfl⟩ := Prod.mk.inj (Option.some.inj heq)
  have hname : w.H.name = s.handles.H.name := grab_name h.fine hw
  refine ⟨⟨h.fine.of_grab hw, ?_, ?_⟩, rfl, hname⟩
  · exact hname ▸ h.holds
  · exact hname ▸ h.sorted

/-- A retirement takes out the names of a handle that is live, and no other name. -/
theorem Good.retire (h : s.Good live) (handle : ℕ) :
    ∃ s', s.retire handle = some s' ∧ s'.Good (live.filter fun e => e.1 ≠ handle) ∧
      s'.handles.H.name = if s.handles.finds handle then others handle s.handles.H.name
        else s.handles.H.name := by
  obtain ⟨w, hw, hfine⟩ := h.fine.retire handle
  have hname := retire_name h.fine hw
  by_cases hfinds : s.handles.finds handle = true
  · obtain ⟨names, hcompact, hholds⟩ := h.holds.compact handle
    refine ⟨⟨w, names⟩, ?_, ⟨hfine, ?_, ?_⟩, hname⟩
    · rw [Registry.retire, hw]
      simp [hfinds, hcompact]
    · rw [if_pos hfinds] at hname
      exact hname ▸ hholds
    · rw [if_pos hfinds] at hname
      exact hname ▸ h.sorted.others handle
  · refine ⟨⟨w, s.names⟩, ?_, ⟨hfine, ?_, ?_⟩, hname⟩
    · rw [Registry.retire, hw]
      simp [hfinds]
    · rw [if_neg hfinds] at hname
      exact hname ▸ h.holds
    · rw [if_neg hfinds] at hname
      exact hname ▸ h.sorted

/-- A name that is there is refused; another one is entered in its place. -/
theorem Good.namehandle (h : s.Good live) {name : List UInt8} (hname : IsCString name)
    (handle : ℕ) :
    (Named s.handles.H.name name ∧ s.namehandle handle name = some (false, s)) ∨
      (¬ Named s.handles.H.name name ∧ ∃ s' before, before ≤ s.handles.H.name.length ∧
        s.namehandle handle name = some (true, s') ∧ s'.Good live ∧
        s'.handles.H.name = s.handles.H.name.insertIdx before ⟨name, handle⟩) := by
  rcases h.holds.insertName h.sorted hname handle with ⟨hnamed, hins⟩ |
    ⟨hnot, a', before, hle, hins, hholds, hsorted⟩
  · refine .inl ⟨hnamed, ?_⟩
    rw [Registry.namehandle, hins]
    simp [h.holds.toList]
  · refine .inr ⟨hnot, ⟨{ s.handles with H := { s.handles.H with name := a'.toList } }, a'⟩,
      before, hle, ?_, ⟨⟨h.fine.size, h.fine.harbor, h.fine.slots, h.fine.handles, h.fine.nodup⟩,
        ?_, ?_⟩, hholds.toList⟩
    · rw [Registry.namehandle, hins]
      rfl
    · show a'.Holds a'.toList
      rw [hholds.toList]
      exact hholds
    · show Sorted a'.toList
      rw [hholds.toList]
      exact hsorted

/-- The entries after a retirement. -/
theorem Good.mem_retire (h : s.Good live) {handle : ℕ} (hretire : s.retire handle = some s')
    (e : HandleName) : e ∈ s'.names.toList ↔
      e ∈ s.names.toList ∧ (handle ∈ live.map Prod.fst → e.handle ≠ handle) := by
  obtain ⟨s₁, hretire', hgood, hname⟩ := h.retire handle
  rw [hretire] at hretire'
  obtain rfl := Option.some.inj hretire'
  rw [hgood.holds.toList, hname, h.holds.toList]
  by_cases hlive : handle ∈ live.map Prod.fst
  · rw [if_pos ((finds_iff h.fine handle).mpr hlive), others, List.mem_filter, decide_eq_true_iff]
    simp [hlive]
  · rw [if_neg fun hfinds => hlive ((finds_iff h.fine handle).mp hfinds)]
    simp [hlive]

/-- The entries after a call of `namehandle`. -/
theorem Good.mem_namehandle (h : s.Good live) {handle : ℕ} {name : List UInt8} {named : Bool}
    (hstring : IsCString name) (hnamed : s.namehandle handle name = some (named, s')) :
    (named = false ↔ ∃ e ∈ s.names.toList, e.name = name) ∧
      ∀ e, e ∈ s'.names.toList ↔ e ∈ s.names.toList ∨ named = true ∧ e = ⟨name, handle⟩ := by
  rcases h.namehandle hstring handle with ⟨hold, hrefused⟩ |
    ⟨habsent, s₁, before, hle, hentered, hgood, hname⟩
  · rw [hrefused] at hnamed
    obtain ⟨rfl, rfl⟩ := Prod.mk.inj (Option.some.inj hnamed)
    rw [h.holds.toList]
    exact ⟨iff_of_true rfl hold, fun e => by simp⟩
  · rw [hentered] at hnamed
    obtain ⟨rfl, rfl⟩ := Prod.mk.inj (Option.some.inj hnamed)
    rw [hgood.holds.toList, h.holds.toList, hname]
    refine ⟨iff_of_false Bool.noConfusion habsent, fun e => ?_⟩
    rw [List.mem_insertIdx hle]
    simp [or_comm]

/-- Neither call fails. -/
theorem Good.namehandle_isSome (h : s.Good live) {name : List UInt8} (hstring : IsCString name)
    (handle : ℕ) : ∃ named s', s.namehandle handle name = some (named, s') := by
  rcases h.namehandle hstring handle with ⟨-, hrefused⟩ | ⟨-, s₁, before, -, hentered, -, -⟩
  · exact ⟨false, s, hrefused⟩
  · exact ⟨true, s₁, hentered⟩

/-! ## What the history says -/

/-- The name list agrees with the history, whatever handles are retired next. -/
def Agrees (l : List HandleName) (history : List NameEvent) : Prop :=
  ∀ name retired, boundBy name retired history =
    if lookup l name ∈ retired then 0 else lookup l name

theorem Agrees.nil : Agrees [] [] := fun _ _ => (ite_self 0).symm

theorem Agrees.boundBy {l : List HandleName} {history : List NameEvent} (h : Agrees l history)
    (name : List UInt8) : boundBy name [] history = lookup l name :=
  (h name []).trans (if_neg List.not_mem_nil)

theorem Agrees.named {l l' : List HandleName} {history : List NameEvent} (h : Agrees l history)
    {name : List UInt8} {handle : ℕ} (habsent : lookup l name = 0)
    (hl' : ∀ name', lookup l' name' = Function.update (lookup l) name handle name') :
    Agrees l' (.named handle name :: history) := by
  intro name' retired
  rw [DnServer.Skynet.boundBy, h name' retired, hl']
  by_cases hname : name = name'
  · subst hname
    rw [Function.update_self, habsent, ite_self]
    by_cases hmem : handle ∈ retired
    · rw [if_neg fun hand => hand.2 hmem, if_pos hmem]
    · rw [if_pos ⟨rfl, hmem⟩, if_neg hmem]
  · rw [if_neg fun hand => hname hand.1, Function.update_of_ne (Ne.symm hname)]

theorem Agrees.retired {l : List HandleName} {history : List NameEvent} (h : Agrees l history)
    (hs : Sorted l) (handle : ℕ) : Agrees (others handle l) (.retired handle :: history) := by
  intro name retired
  rw [DnServer.Skynet.boundBy, h name (handle :: retired), hs.lookup_others]
  by_cases hh : lookup l name = handle
  · rw [if_pos (by rw [hh]; exact List.mem_cons_self), if_pos hh, ite_self]
  · rw [if_neg hh]
    simp [hh]

/-- A state of a run, with its history. -/
structure Told (p : (Registry × Live) × List NameEvent) : Prop where
  good : p.1.1.Good p.1.2
  agrees : Agrees p.1.1.handles.H.name p.2

theorem Told.step {p q : (Registry × Live) × List NameEvent} {call : Call} (h : Told p)
    (hcalled : Called p.1 call q.1) (hnote : q.2 = note p.1 call q.1 p.2) : Told q := by
  obtain ⟨⟨s, live⟩, history⟩ := p
  obtain ⟨⟨s', live'⟩, history'⟩ := q
  obtain ⟨hgood, hagrees⟩ := h
  obtain rfl : history' = note (s, live) call (s', live') history := hnote
  cases hcalled with
  | register hc hreg =>
    obtain ⟨hgood', -, hname⟩ := hgood.register hc hreg
    exact ⟨hgood', by rw [hname]; exact hagrees⟩
  | grab hgrab =>
    obtain ⟨hgood', -, hname⟩ := hgood.grab hgrab
    exact ⟨hgood', by rw [hname]; exact hagrees⟩
  | @retire _ _ _ handle hretire =>
    obtain ⟨s₁, hretire', hgood', hname⟩ := hgood.retire handle
    rw [hretire] at hretire'
    obtain rfl := Option.some.inj hretire'
    refine ⟨hgood', ?_⟩
    show Agrees s'.handles.H.name
      (if s.handles.finds handle then .retired handle :: history else history)
    rw [hname]
    by_cases hfinds : s.handles.finds handle = true
    · rw [if_pos hfinds, if_pos hfinds]
      exact hagrees.retired hgood.sorted handle
    · rw [if_neg hfinds, if_neg hfinds]
      exact hagrees
  | @namehandle _ _ _ handle name named hstring hnamed =>
    show Told ((s', live),
      if (s.namehandle handle name).any (·.1) then .named handle name :: history else history)
    rcases hgood.namehandle hstring handle with ⟨-, hrefused⟩ |
      ⟨habsent, s₁, before, hle, hentered, hgood', hname⟩
    · rw [hrefused] at hnamed ⊢
      obtain ⟨rfl, rfl⟩ := Prod.mk.inj (Option.some.inj hnamed)
      exact ⟨hgood, hagrees⟩
    · rw [hentered] at hnamed ⊢
      obtain ⟨rfl, rfl⟩ := Prod.mk.inj (Option.some.inj hnamed)
      refine ⟨hgood', ?_⟩
      have hsorted := hgood'.sorted
      rw [hname] at hsorted
      show Agrees s₁.handles.H.name (.named handle name :: history)
      rw [hname]
      exact hagrees.named (lookup_absent habsent)
        (hgood.sorted.lookup_insertIdx hle hsorted)

theorem told_invariant : naming.Invariant Told := by
  refine TSys.Inductive.invariant ⟨?_, fun p call q _ h hstep => h.step hstep.1 hstep.2⟩
  rintro ⟨p, history⟩ ⟨⟨harbor, hp⟩, hhistory⟩
  obtain rfl : p = (init harbor, []) := hp
  obtain rfl : history = [] := hhistory
  exact ⟨init_good harbor, .nil⟩

/-- **The name table.** After any order of operations the array is strictly sorted, a name is
refused just when it is in the array, an insertion, growth or not, keeps every entry and adds
one, no operation touches memory outside the array, and a name is found under the handle of its
last binding that has not been retired since. -/
theorem name_table_sound {p : (Registry × Live) × List NameEvent} (h : naming.Reachable p) :
    p.1.1.names.toList.Pairwise (fun e e' => strcmp e.name e'.name < 0) ∧
      p.1.1.names.name_count = p.1.1.names.toList.length ∧
      (∀ handle name, IsCString name → ∃ named s', p.1.1.namehandle handle name = some (named, s') ∧
        (named = false ↔ ∃ e ∈ p.1.1.names.toList, e.name = name) ∧
        ∀ e, e ∈ s'.names.toList ↔ e ∈ p.1.1.names.toList ∨ named = true ∧ e = ⟨name, handle⟩) ∧
      (∀ handle, ∃ s', p.1.1.retire handle = some s' ∧ ∀ e, e ∈ s'.names.toList ↔
        e ∈ p.1.1.names.toList ∧ (handle ∈ p.1.2.map Prod.fst → e.handle ≠ handle)) ∧
      ∀ name, IsCString name → p.1.1.findname name = some (boundBy name [] p.2) := by
  obtain ⟨hgood, hagrees⟩ := told_invariant p h
  refine ⟨?_, ?_, fun handle name hname => ?_, fun handle => ?_, fun name hname => ?_⟩
  · rw [hgood.holds.toList]
    exact hgood.sorted.order
  · rw [hgood.holds.toList]
    exact hgood.holds.count
  · obtain ⟨named, s', hnamed⟩ := hgood.namehandle_isSome hname handle
    exact ⟨named, s', hnamed, hgood.mem_namehandle hname hnamed⟩
  · obtain ⟨s', hretire, -⟩ := hgood.retire handle
    exact ⟨s', hretire, hgood.mem_retire hretire⟩
  · rw [hagrees.boundBy]
    exact hgood.holds.findname hgood.sorted hname

def exec (p : Registry × Live) : Call → Option (Registry × Live)
  | .register c =>
    if (p.1.handles.ctx c).isNone then (p.1.register c).map fun q => (q.2, (q.1, c) :: p.2)
    else none
  | .retire handle => (p.1.retire handle).map fun s => (s, p.2.filter fun e => e.1 ≠ handle)
  | .grab handle => (p.1.grab handle).map fun q => (q.2, p.2)
  | .namehandle handle name =>
    if IsCString name then (p.1.namehandle handle name).map fun q => (q.2, p.2) else none

theorem exec_step (p : Registry × Live) (call : Call) (q : Registry × Live)
    (h : exec p call = some q) : registry.step p call q := by
  cases call with
  | register c =>
    by_cases hnew : (p.1.handles.ctx c).isNone
    · rw [exec, if_pos hnew] at h
      obtain ⟨⟨handle, s⟩, hreg, rfl⟩ := Option.map_eq_some_iff.mp h
      exact .register (Option.isNone_iff_eq_none.mp hnew) hreg
    · rw [exec, if_neg hnew] at h
      cases h
  | retire handle =>
    obtain ⟨s, hretire, rfl⟩ := Option.map_eq_some_iff.mp h
    exact .retire hretire
  | grab handle =>
    obtain ⟨⟨c, s⟩, hgrab, rfl⟩ := Option.map_eq_some_iff.mp h
    exact .grab hgrab
  | namehandle handle name =>
    by_cases hstring : IsCString name
    · rw [exec, if_pos hstring] at h
      obtain ⟨⟨named, s⟩, hnamed, rfl⟩ := Option.map_eq_some_iff.mp h
      exact .namehandle hstring hnamed
    · rw [exec, if_neg hstring] at h
      cases h

/-- The first of two services is named b, the other one a, c and e, for which the array grows; a
second binding of b is refused. When the first service is retired, b is no longer found. -/
theorem name_table_sound_retired : ∃ p, naming.Reachable p ∧ p.1.1.names.name_cap = 4 ∧
    p.1.1.findname [97] = some 0x1000002 ∧ p.1.1.findname [98] = some 0 ∧
      p.1.1.names.toList.Pairwise fun e e' => strcmp e.name e'.name < 0 := by
  obtain ⟨p, hp, hend⟩ := TSys.reachable_of_exec (T := naming) (TSys.observeExec_step exec_step)
    (s := ((init 1, []), [])) ⟨⟨1, rfl⟩, rfl⟩
    (l := [.register 0, .register 1, .namehandle 0x1000001 [98], .namehandle 0x1000002 [97],
      .namehandle 0x1000002 [98], .namehandle 0x1000002 [101], .namehandle 0x1000002 [99],
      .retire 0x1000001])
    (p := fun p => decide (p.1.1.names.name_cap = 4 ∧ boundBy [97] [] p.2 = 0x1000002 ∧
      boundBy [98] [] p.2 = 0)) (by decide +kernel)
  obtain ⟨hcap, ha, hb⟩ := of_decide_eq_true hend
  obtain ⟨hsorted, -, -, -, hfind⟩ := name_table_sound hp
  refine ⟨p, hp, hcap, ?_, ?_, hsorted⟩
  · rw [hfind _ (by decide), ha]
  · rw [hfind _ (by decide), hb]

/-! ## Names without a service -/

/-- Every name in the array is bound to a service that is registered and not retired. -/
def AllLive (p : Registry × Live) : Prop := ∀ e ∈ p.1.names.toList, e.handle ∈ p.2.map Prod.fst

/-- A new name is given to a live handle only. -/
def ForLive (p : Registry × Live) (call : Call) : Prop :=
  ∀ handle name, call = .namehandle handle name →
    (∃ e ∈ p.1.names.toList, e.name = name) ∨ handle ∈ p.2.map Prod.fst

theorem good_invariant : registry.Invariant fun p => p.1.Good p.2 := by
  intro p hp
  obtain ⟨history, hr⟩ : ∃ history, naming.Reachable (p, history) := hp.observe
  exact (told_invariant _ hr).good

/-- A step out of a state without a dead name leads to another one just when it gives a new
name to a live handle or none. -/
theorem Good.allLive_iff {p q : Registry × Live} {call : Call} (h : p.1.Good p.2)
    (hall : AllLive p) (hcalled : Called p call q) : AllLive q ↔ ForLive p call := by
  cases hcalled with
  | @register s s' live c handle hc hreg =>
    obtain ⟨-, hnames, -⟩ := h.register hc hreg
    refine iff_of_true (fun e he => ?_) fun _ _ hcall => by cases hcall
    have hmem : e ∈ s.names.toList := hnames ▸ he
    exact List.mem_cons_of_mem _ (hall e hmem)
  | @grab s s' live handle c hgrab =>
    obtain ⟨-, hnames, -⟩ := h.grab hgrab
    refine iff_of_true (fun e he => ?_) fun _ _ hcall => by cases hcall
    have hmem : e ∈ s.names.toList := hnames ▸ he
    exact hall e hmem
  | @retire s s' live handle hretire =>
    refine iff_of_true (fun e he => ?_) fun _ _ hcall => by cases hcall
    obtain ⟨hmem, hother⟩ := (h.mem_retire hretire e).mp he
    obtain ⟨⟨handle', c⟩, hl, heq⟩ := List.mem_map.mp (hall e hmem)
    have hne : e.handle ≠ handle := fun hsame => hother (hsame ▸ hall e hmem) hsame
    refine List.mem_map.mpr ⟨(handle', c), List.mem_filter.mpr ⟨hl, ?_⟩, heq⟩
    exact decide_eq_true fun hsame => hne (heq.symm.trans hsame)
  | @namehandle s s' live handle name named hstring hnamed =>
    obtain ⟨hflag, hmem⟩ := h.mem_namehandle hstring hnamed
    constructor
    · intro hall' handle' name' hcall
      cases hcall
      by_cases hold : ∃ e ∈ s.names.toList, e.name = name
      · exact .inl hold
      · have htrue : named = true := by
          rw [← Bool.not_eq_false, hflag]
          exact hold
        exact .inr (hall' ⟨name, handle⟩ ((hmem _).mpr (.inr ⟨htrue, rfl⟩)))
    · intro hfor e he
      rcases (hmem e).mp he with hold | ⟨htrue, rfl⟩
      · exact hall e hold
      · rcases hfor handle name rfl with hthere | hlive
        · rw [hflag.mpr hthere] at htrue
          cases htrue
        · exact hlive

theorem allLive_of_restrict {p : Registry × Live} (h : (registry.restrict ForLive).Reachable p) :
    AllLive p := by
  induction h with
  | init h0 =>
    obtain ⟨harbor, rfl⟩ := h0
    intro e he
    rw [(init_good harbor).holds.toList] at he
    cases he
  | step hr hstep ih =>
    exact ((good_invariant _ hr.of_restrict).allLive_iff ih hstep.2).mpr hstep.1

/-- What is found is 0 or bound in the array. -/
theorem Good.findname_mem (h : s.Good live) {name : List UInt8} {handle : ℕ}
    (hname : IsCString name) (hfind : s.findname name = some handle) :
    handle = 0 ∨ ⟨name, handle⟩ ∈ s.names.toList := by
  rw [Registry.findname, h.holds.findname h.sorted hname] at hfind
  obtain rfl := Option.some.inj hfind
  rcases h.sorted.lookup_cases name with ⟨e, he, rfl, hlook⟩ | ⟨-, hlook⟩
  · rw [hlook, h.holds.toList]
    exact .inr he
  · exact .inl hlook

/-- **No dead names.** In every run in which new names are given to live handles only, every name
is bound to a live service, a name that is found gives a live service, and a name whose service is
retired can be given again. Out of a state without a dead name a step leads to one with a dead
name just when it gives a new name to a handle that is not live. -/
theorem names_of_live (p : Registry × Live) :
    ((registry.restrict ForLive).Reachable p → AllLive p ∧
      (∀ name handle, IsCString name → p.1.findname name = some handle → handle ≠ 0 →
        handle ∈ p.2.map Prod.fst) ∧
      ∀ handle q, Called p (.retire handle) q → ∀ e ∈ p.1.names.toList, e.handle = handle →
        ∀ handle', ∃ s', q.1.namehandle handle' e.name = some (true, s')) ∧
    (registry.Reachable p → AllLive p → ∀ call q, Called p call q →
      (AllLive q ↔ ForLive p call)) := by
  refine ⟨fun hp => ?_, fun hp hall call q hcalled =>
    (good_invariant p hp).allLive_iff hall hcalled⟩
  have hall := allLive_of_restrict hp
  have hgood := good_invariant p hp.of_restrict
  refine ⟨hall, fun name handle hname hfind hne => ?_, fun handle q hcalled e he heq handle' => ?_⟩
  · rcases hgood.findname_mem hname hfind with hzero | hmem
    · exact absurd hzero hne
    · exact hall _ hmem
  · have hgood' := good_invariant q (.step hp.of_restrict hcalled)
    have hstring : IsCString e.name := by
      rw [hgood.holds.toList] at he
      exact hgood.sorted.strings e he
    obtain ⟨named, s', hnamed⟩ := hgood'.namehandle_isSome hstring handle'
    obtain ⟨hflag, -⟩ := hgood'.mem_namehandle hstring hnamed
    cases hcalled with
    | @retire s s₁ live _ hretire =>
      refine ⟨s', ?_⟩
      cases named with
      | true => exact hnamed
      | false =>
        obtain ⟨e', he', hname'⟩ := hflag.mp rfl
        obtain ⟨hmem, hother⟩ := (hgood.mem_retire hretire e').mp he'
        have hlive := hall e he
        rw [hgood.holds.toList] at hmem he
        have hsame := hgood.sorted.name_inj hmem he hname'
        rw [heq] at hlive
        exact absurd (hsame ▸ heq) (hother hlive)

/-- A new name is found under any handle it is given, and refused from then on. -/
theorem Good.named (h : s.Good live) {name : List UInt8} (hname : IsCString name)
    (habsent : ¬ Named s.handles.H.name name) (handle : ℕ) :
    ∃ s', Called (s, live) (.namehandle handle name) (s', live) ∧ s'.findname name = some handle ∧
      ∀ handle', s'.namehandle handle' name = some (false, s') := by
  obtain ⟨hold, -⟩ | ⟨-, s', before, hle, hentered, hgood, hins⟩ := h.namehandle hname handle
  · exact absurd hold habsent
  have hmem : ⟨name, handle⟩ ∈ s'.handles.H.name := by
    rw [hins]
    exact (List.mem_insertIdx hle).mpr (.inl rfl)
  refine ⟨s', .namehandle hname hentered, ?_, fun handle' => ?_⟩
  · rw [Registry.findname, hgood.holds.findname hgood.sorted hname]
    exact congrArg some (hgood.sorted.lookup hmem)
  · rcases hgood.namehandle hname handle' with ⟨-, hrefused⟩ | ⟨hnot, -⟩
    · exact hrefused
    · exact absurd ⟨_, hmem, rfl⟩ hnot

/-- The first service of harbor 1 ends, and then its handle is named: the dead handle is found, and
no other service can have the name. -/
theorem dead_name_found :
    ∃ p, registry.Reachable p ∧ ∃ name handle, IsCString name ∧ handle ≠ 0 ∧
      p.1.findname name = some handle ∧ handle ∉ p.2.map Prod.fst ∧
      ∀ handle', p.1.namehandle handle' name = some (false, p.1) := by
  obtain ⟨w₁, -, hreg, -, -⟩ := Handles.Idle.init.round (by decide)
  have hstart : registry.Reachable (init 1, []) := .init ⟨1, rfl⟩
  have hregister : (init 1).register 0 = some ((0 + 1) ||| 1 <<< 24, ⟨w₁, .init⟩) := by
    rw [Registry.register]
    exact Option.bind_eq_some_iff.mpr ⟨_, hreg, rfl⟩
  have hlive := TSys.Reachable.step hstart (Called.register rfl hregister)
  obtain ⟨s₂, hretire, hgood, -⟩ := (good_invariant _ hlive).retire ((0 + 1) ||| 1 <<< 24)
  have hdead := TSys.Reachable.step hlive (Called.retire hretire)
  have hempty : ¬ Named s₂.handles.H.name [112] := by
    rintro ⟨e, he, -⟩
    rw [← hgood.holds.toList] at he
    cases (((good_invariant _ hlive).mem_retire hretire e).mp he).1
  have hstring : IsCString [112] := by decide
  obtain ⟨s₃, hcalled, hfind, hrefused⟩ := hgood.named hstring hempty ((0 + 1) ||| 1 <<< 24)
  refine ⟨_, .step hdead hcalled, [112], (0 + 1) ||| 1 <<< 24, hstring, by decide, hfind, ?_,
    hrefused⟩
  simp

end Registry

end DnServer.Skynet
