import DnServer.Skynet.Handles

/-!
# The handle that is reserved for the system

`skynet_handle_init` starts the running index at 1, to reserve the local part 0 for
the system, and `skynet_handle_register` masks the running index with each handle it
tries. After 16 million services the index has come round: the probe then tries the
local part 0 like any other.

* `reserved_unissued`: `Clear` keeps the index below the wrap;
  `Fine.register_reserved_iff` says at which index and table a handle with local part 0
  comes out.
-/

namespace DnServer.Skynet

open DnServer.Lib

/-- The part of a handle that the harbor does not take. -/
def localPart (handle : ℕ) : ℕ := handle &&& HANDLE_MASK

theorem localPart_eq (handle : ℕ) : localPart handle = handle % 2 ^ 24 :=
  Nat.and_two_pow_sub_one_eq_mod _ 24

theorem localPart_or {handle harbor : ℕ} (hharbor : 2 ^ 24 ∣ harbor) :
    localPart (handle ||| harbor) = localPart handle := by
  have hzero : harbor &&& HANDLE_MASK = 0 := by
    rw [HANDLE_MASK, Nat.and_two_pow_sub_one_eq_mod harbor 24]
    exact Nat.mod_eq_zero_of_dvd hharbor
  rw [localPart, localPart, Nat.and_or_distrib_right, hzero, Nat.or_zero]

theorem localPart_candidate (s : HandleStorage) (i : ℕ) :
    localPart (s.candidate i) = (i + s.handle_index) % 2 ^ 24 := by
  rw [localPart_eq, Handles.candidate_eq, Nat.mod_mod]

namespace Handles

variable {w w' : Handles} {live : Live} {n : ℕ}

/-! ## What the probe meets -/

/-- A live service has the slot of `handle` in a table of `size` slots. -/
def Occupied (live : Live) (size handle : ℕ) : Prop := ∃ e ∈ live, e.1 % size = handle % size

/-- The size of the table in which the next registration finds a slot: a full table
doubles first. -/
def nextSize (w : Handles) (live : Live) : ℕ :=
  if live.length = w.H.slot_size then w.H.slot_size * 2 else w.H.slot_size

/-- From the running index on every slot is taken up to a multiple of `2 ^ 24`, and the
slot of that is free. -/
def ComesToZero (w : Handles) (live : Live) : Prop :=
  ∃ i < w.nextSize live, (i + w.H.handle_index) % 2 ^ 24 = 0 ∧
    (∀ j < i, Occupied live (w.nextSize live) (j + w.H.handle_index)) ∧
    ¬ Occupied live (w.nextSize live) 0

/-- The probe gives the first candidate whose slot is free. -/
theorem probe_eq_some {s : HandleStorage} {handle : ℕ} (h : s.probe = some handle) :
    ∃ i < s.slot_size, handle = s.candidate i ∧ s.slot (s.hash handle) = none ∧
      ∀ j < i, s.slot (s.hash (s.candidate j)) ≠ none := by
  rw [HandleStorage.probe, List.find?_map] at h
  obtain ⟨i, hi, rfl⟩ := Option.map_eq_some_iff.mp h
  obtain ⟨hfree, hmem, hbefore⟩ := List.find?_range_eq_some.mp hi
  refine ⟨i, List.mem_range.mp hmem, rfl, Option.isNone_iff_eq_none.mp hfree, fun j hj hnone => ?_⟩
  have htaken := hbefore j hj
  rw [Function.comp_apply, hnone] at htaken
  cases htaken

/-- The first candidate is taken when its slot is free. -/
theorem probe_of_free {s : HandleStorage} (hsize : 0 < s.slot_size)
    (hfree : s.slot (s.hash (s.candidate 0)) = none) : s.probe = some (s.candidate 0) := by
  have hfirst : (List.range s.slot_size).find?
      ((fun handle => (s.slot (s.hash handle)).isNone) ∘ s.candidate) = some 0 :=
    List.find?_range_eq_some.mpr ⟨Option.isNone_iff_eq_none.mpr hfree, List.mem_range.mpr hsize,
      fun j hj => absurd hj j.not_lt_zero⟩
  rw [HandleStorage.probe, List.find?_map, hfirst, Option.map_some]

theorem Fine.size_dvd (h : w.Fine live) : w.H.slot_size ∣ 2 ^ 24 := by
  obtain ⟨k, hk, hs⟩ := h.size
  rw [hs]
  exact Nat.pow_dvd_pow 2 hk

/-- A slot is taken by the live service whose handle ends in it. -/
theorem Fine.slot_ne_none_iff (h : w.Fine live) (i : ℕ) :
    w.H.slot (w.H.hash (w.H.candidate i)) ≠ none ↔
      Occupied live w.H.slot_size (i + w.H.handle_index) := by
  obtain ⟨k, hk, hs⟩ := h.size
  have hhash : w.H.hash (w.H.candidate i) = (i + w.H.handle_index) % w.H.slot_size := by
    rw [hash_eq hs, candidate_eq, hs, Nat.mod_mod_of_dvd _ (Nat.pow_dvd_pow 2 hk)]
  rw [hhash, Option.ne_none_iff_exists']
  constructor
  · rintro ⟨c, hc⟩
    obtain ⟨handle, hl, heq⟩ := (h.slots _ c).mp hc
    refine ⟨_, hl, ?_⟩
    rw [hash_eq hs, ← hs] at heq
    exact heq
  · rintro ⟨⟨handle, c⟩, hl, heq⟩
    refine ⟨c, (h.slots _ c).mpr ⟨handle, hl, ?_⟩⟩
    rw [hash_eq hs, ← hs]
    exact heq

/-- With as many live services as slots no slot is free. -/
theorem Fine.full_of_length (h : w.Fine live) (hlen : live.length = w.H.slot_size) {i : ℕ}
    (hi : i < w.H.slot_size) : w.H.slot i ≠ none := by
  have hsub : live.map (fun e => w.H.hash e.1) ⊆ List.range w.H.slot_size := fun i hi => by
    obtain ⟨e, -, rfl⟩ := List.mem_map.mp hi
    exact List.mem_range.mpr (h.hash_lt e.1)
  have hperm := (h.nodup_hash.subperm hsub).perm_of_length_le
    (by rw [List.length_map, List.length_range, hlen])
  obtain ⟨⟨handle, c⟩, hl, rfl⟩ := List.mem_map.mp (hperm.mem_iff.mpr (List.mem_range.mpr hi))
  rw [h.slot hl]
  exact Option.some_ne_none c

theorem grow_eq_some (hgrow : w.grow = some w') :
    w.H.slot_size * 2 - 1 ≤ HANDLE_MASK ∧ w'.H.handle_index = w.H.handle_index := by
  unfold Handles.grow at hgrow
  by_cases hmask : w.H.slot_size * 2 - 1 ≤ HANDLE_MASK
  · rw [if_neg (not_not.mpr hmask)] at hgrow
    obtain ⟨new_slot, -, hw'⟩ := Option.bind_eq_some_iff.mp hgrow
    cases hw'
    exact ⟨hmask, rfl⟩
  · rw [if_pos hmask] at hgrow
    cases hgrow

/-- What a successful probe says of the handle that is then returned. -/
theorem Fine.place_probed (h : w.Fine live) {c handle tried : ℕ} {x : SkynetContext}
    (hprobe : w.H.probe = some tried) (hx : w.ctx c = some x) (hne : ∀ e ∈ live, e.2 ≠ c)
    (hplace : w.place tried c = some (handle, w')) :
    w'.Fine ((handle, c) :: live) ∧ ∃ i < w.H.slot_size,
      localPart handle = (i + w.H.handle_index) % 2 ^ 24 ∧
      (∀ j < i, Occupied live w.H.slot_size (j + w.H.handle_index)) ∧
      ¬ Occupied live w.H.slot_size (i + w.H.handle_index) := by
  obtain ⟨i, hi, rfl, hfree, hbefore⟩ := probe_eq_some hprobe
  obtain ⟨w₁, hplace₁, hfine⟩ := h.place hfree hx hne
  rw [hplace] at hplace₁
  obtain ⟨rfl, rfl⟩ := Prod.mk.inj (Option.some.inj hplace₁)
  refine ⟨hfine, i, hi, ?_, fun j hj => (h.slot_ne_none_iff j).mp (hbefore j hj), fun hocc => ?_⟩
  · rw [localPart_or h.harbor, localPart_candidate]
  · exact (h.slot_ne_none_iff i).mpr hocc hfree

/-- A registration that returns gives the first handle from the running index on whose
slot is free, in the table doubled when it was full. -/
theorem Fine.register_eq_some (h : w.Fine live) {c handle : ℕ} (hc : w.ctx c = none)
    (hreg : (w.create c).register c = some (handle, w')) :
    w'.Fine ((handle, c) :: live) ∧ w.nextSize live ∣ 2 ^ 24 ∧ ∃ i < w.nextSize live,
      localPart handle = (i + w.H.handle_index) % 2 ^ 24 ∧
      (∀ j < i, Occupied live (w.nextSize live) (j + w.H.handle_index)) ∧
      ¬ Occupied live (w.nextSize live) (i + w.H.handle_index) := by
  obtain ⟨hfine, hctx, hne⟩ := h.create hc
  unfold Handles.register at hreg
  rw [registerLoop] at hreg
  cases hprobe : (w.create c).H.probe with
  | some tried =>
    rw [hprobe] at hreg
    have hsize : w.nextSize live = w.H.slot_size := by
      refine if_neg fun hlen => ?_
      obtain ⟨i, -, rfl, hfree, -⟩ := probe_eq_some hprobe
      exact hfine.full_of_length hlen (hfine.hash_lt _) hfree
    obtain ⟨hfine', hplaced⟩ := hfine.place_probed hprobe hctx hne hreg
    rw [hsize]
    exact ⟨hfine', hfine.size_dvd, hplaced⟩
  | none =>
    rw [hprobe] at hreg
    obtain ⟨w₁, hgrow, hrest⟩ := Option.bind_eq_some_iff.mp hreg
    obtain ⟨hmask, hindex⟩ := grow_eq_some hgrow
    have hfull := hfine.full_of_probe hprobe
    have hle := hfine.length_le
    have hlive : live.length < 2 ^ 24 - 1 := by
      rw [HANDLE_MASK] at hmask
      omega
    obtain ⟨w₂, hgrow₂, hfine₁, hctx₁, hdouble⟩ := hfine.grow hfull hlive
    rw [hgrow] at hgrow₂
    obtain rfl := Option.some.inj hgrow₂
    have hsize : w.nextSize live = w₁.H.slot_size :=
      (if_pos (le_antisymm hle (hfine.le_length hfull))).trans hdouble.symm
    rw [registerLoop] at hrest
    cases hprobe₁ : w₁.H.probe with
    | some tried =>
      rw [hprobe₁] at hrest
      obtain ⟨hfine', hplaced⟩ := hfine₁.place_probed hprobe₁ (hctx₁ ▸ hctx) hne hrest
      rw [hindex] at hplaced
      rw [hsize]
      exact ⟨hfine', hfine₁.size_dvd, hplaced⟩
    | none =>
      -- the larger table has more slots than there are services
      have hge := hfine₁.le_length (hfine₁.full_of_probe hprobe₁)
      have hpos := hfine.hash_lt 0
      omega

/-- **One registration.** It returns the reserved local part just when the probe comes to a
multiple of `2 ^ 24`. -/
theorem Fine.register_reserved_iff (h : w.Fine live) {c handle : ℕ} (hc : w.ctx c = none)
    (hreg : (w.create c).register c = some (handle, w')) :
    localPart handle = 0 ↔ w.ComesToZero live := by
  obtain ⟨-, hdvd, i, hi, hlocal, hbefore, hfree⟩ := h.register_eq_some hc hreg
  -- a multiple of `2 ^ 24` has the slot 0, whatever the size of the table
  have hslot : ∀ j, (j + w.H.handle_index) % 2 ^ 24 = 0 →
      (Occupied live (w.nextSize live) (j + w.H.handle_index) ↔
        Occupied live (w.nextSize live) 0) := fun j hzero => by
    have hmod : (j + w.H.handle_index) % w.nextSize live = 0 % w.nextSize live := by
      rw [← Nat.mod_mod_of_dvd _ hdvd, hzero]
    rw [Occupied, Occupied, hmod]
  rw [hlocal]
  constructor
  · intro hzero
    exact ⟨i, hi, hzero, hbefore, fun hocc => hfree ((hslot i hzero).mpr hocc)⟩
  · rintro ⟨i', -, hzero, hbefore', hfree'⟩
    rcases lt_trichotomy i i' with hlt | heq | hgt
    · exact absurd (hbefore' i hlt) hfree
    · rw [heq]
      exact hzero
    · exact absurd ((hslot i' hzero).mp (hbefore i' hgt)) hfree'

/-! ## The life of the process -/

/-- A step of the registry: every registration counts that comes back, however many services
live. -/
inductive Served : Handles × Live → Op → Handles × Live → Prop
  | register {w w' live c handle} : w.ctx c = none →
      (w.create c).register c = some (handle, w') →
      Served (w, live) (.register c) (w', (handle, c) :: live)
  | retire {w w' live handle} : w.retire handle = some w' →
      Served (w, live) (.retire handle) (w', live.filter fun e => e.1 ≠ handle)
  | grab {w w' live handle result} : w.grab handle = some (result, w') →
      Served (w, live) (.grab handle) (w', live)

/-- The registry from `skynet_handle_init` on. -/
def process : TSys (Handles × Live) Op where
  init p := ∃ harbor, p = (⟨.init harbor, fun _ => none⟩, [])
  step := Served

/-- The handle that a registration has just returned goes to the front of those returned. -/
def returned (_ : Handles × Live) (op : Op) (q : Handles × Live) (handles : List ℕ) : List ℕ :=
  match op with
  | .register _ => (q.2.head?.map Prod.fst).toList ++ handles
  | _ => handles

/-- The registry, with every handle that was ever returned. -/
def issuing : TSys ((Handles × Live) × List ℕ) Op := process.observe (fun _ => []) returned

theorem process_fine : process.Invariant fun p => p.1.Fine p.2 := by
  refine TSys.Inductive.invariant ⟨?_, fun p op q _ h hstep => ?_⟩
  · rintro _ ⟨harbor, rfl⟩
    exact init_fine harbor
  · cases hstep with
    | register hc hreg => exact (h.register_eq_some hc hreg).1
    | retire hretire => exact h.of_retire hretire
    | grab hgrab => exact h.of_grab hgrab

/-- Every run of the observed system is one of the registry. -/
theorem issuing_fine {p : (Handles × Live) × List ℕ} (h : issuing.Reachable p) :
    p.1.1.Fine p.1.2 := process_fine p.1 (.of_observe h)

/-- Only a registration adds to what was returned, and it adds its handle. -/
theorem returned_of_served {p q : Handles × Live} {op : Op} (h : Served p op q)
    (handles : List ℕ) : returned p op q handles = handles ∨
      ∃ c handle w', op = .register c ∧ p.1.ctx c = none ∧
        (p.1.create c).register c = some (handle, w') ∧
        returned p op q handles = handle :: handles := by
  cases h with
  | register hc hreg => exact .inr ⟨_, _, _, rfl, hc, hreg, rfl⟩
  | retire => exact .inl rfl
  | grab => exact .inl rfl

/-- The step is no registration that comes to the wrap of the running index. -/
def Clear (p : (Handles × Live) × List ℕ) (op : Op) : Prop :=
  ∀ c, op = .register c → ¬ p.1.1.ComesToZero p.1.2

/-- **The reserved handle.** In every run whose registrations do not come to the wrap of the
running index no handle with the local part 0 is returned, and after any run a registration
returns such a handle just when it comes to the wrap. -/
theorem reserved_unissued (p : (Handles × Live) × List ℕ) :
    ((issuing.restrict Clear).Reachable p → ∀ handle ∈ p.2, localPart handle ≠ 0) ∧
      (issuing.Reachable p → ∀ c handle w', p.1.1.ctx c = none →
        (p.1.1.create c).register c = some (handle, w') →
        (localPart handle = 0 ↔ p.1.1.ComesToZero p.1.2)) := by
  constructor
  · intro hp
    induction hp with
    | init h0 =>
      intro handle hmem
      rw [h0.2] at hmem
      cases hmem
    | @step p op q hr hstep ih =>
      obtain ⟨hclear, hserved, hnote⟩ := hstep
      have hfine := issuing_fine hr.of_restrict
      rw [hnote]
      rcases returned_of_served hserved p.2 with hsame | ⟨c, handle, w', hop, hc, hreg, hmore⟩
      · rw [hsame]
        exact ih
      · rw [hmore]
        intro handle' hmem
        rcases List.mem_cons.mp hmem with rfl | hmem
        · exact fun hzero => hclear c hop ((hfine.register_reserved_iff hc hreg).mp hzero)
        · exact ih handle' hmem
  · intro hp c handle w' hc hreg
    exact (issuing_fine hp).register_reserved_iff hc hreg

/-! ## A process that has started 16 million services -/

/-- The registry of harbor 1 after `n` services that have started and ended. -/
structure Idle (w : Handles) (n : ℕ) : Prop where
  harbor : w.H.harbor = 1 <<< 24
  size : w.H.slot_size = 4
  index : w.H.handle_index = n + 1
  slots : ∀ i, w.H.slot i = none
  fresh : ∀ c, n ≤ c → w.ctx c = none

theorem Idle.init : Idle ⟨.init 1, fun _ => none⟩ 0 where
  harbor := rfl
  size := rfl
  index := rfl
  slots _ := rfl
  fresh _ _ := rfl

/-- The next service gets the handle after the running index's last one. -/
theorem Idle.register (h : w.Idle n) :
    (w.create n).register n = some ((n + 1) % 2 ^ 24 ||| w.H.harbor,
      ⟨{ w.H with
          slot := Function.update w.H.slot (w.H.hash ((n + 1) % 2 ^ 24)) (some n)
          handle_index := (n + 1) % 2 ^ 24 + 1 },
        Function.update (w.create n).ctx n (some ⟨(n + 1) % 2 ^ 24 ||| w.H.harbor, 2⟩)⟩) := by
  have hcandidate : w.H.candidate 0 = (n + 1) % 2 ^ 24 := by
    rw [candidate_eq, Nat.zero_add, h.index]
  have hprobe : (w.create n).H.probe = some ((n + 1) % 2 ^ 24) := by
    rw [← hcandidate]
    exact probe_of_free (by rw [create, h.size]; decide) (h.slots _)
  have hctx : (w.create n).ctx n = some ⟨0, 2⟩ := Function.update_self ..
  rw [Handles.register, registerLoop, hprobe]
  simp only [place, hctx]
  rfl

/-- A service starts and ends, and the running index is one further. -/
theorem Idle.round (h : w.Idle n) (hn : n + 1 < 2 ^ 24) :
    ∃ w₁ w', (w.create n).register n = some ((n + 1) ||| w.H.harbor, w₁) ∧
      w₁.retire ((n + 1) ||| w.H.harbor) = some w' ∧ w'.Idle (n + 1) := by
  have hreg := h.register
  rw [Nat.mod_eq_of_lt hn] at hreg
  have hhash : w.H.hash ((n + 1) ||| w.H.harbor) = w.H.hash (n + 1) :=
    hash_or ⟨2, by decide, h.size⟩ (by rw [h.harbor]; decide) (n + 1)
  refine ⟨_, _, hreg, retire_of_slot (c := n) (x := ⟨(n + 1) ||| w.H.harbor, 2⟩) ?_ ?_ rfl,
    h.harbor, h.size, rfl, fun i => ?_, fun c hc => ?_⟩
  · show Function.update w.H.slot (w.H.hash (n + 1)) (some n) (w.H.hash ((n + 1) ||| w.H.harbor)) =
      some n
    rw [hhash, Function.update_self]
  · exact Function.update_self ..
  · show Function.update (Function.update w.H.slot (w.H.hash (n + 1)) (some n))
      (w.H.hash ((n + 1) ||| w.H.harbor)) none i = none
    rw [hhash, Function.update_idem]
    by_cases hi : i = w.H.hash (n + 1)
    · rw [hi, Function.update_self]
    · rw [Function.update_of_ne hi]
      exact h.slots i
  · have hne : c ≠ n := by omega
    show Function.update (Function.update (Function.update w.ctx n _) n _) n _ c = none
    rw [Function.update_of_ne hne, Function.update_of_ne hne, Function.update_of_ne hne]
    exact h.fresh c (by omega)

theorem issuing_register {c handle : ℕ} {handles : List ℕ}
    (h : issuing.Reachable ((w, live), handles)) (hc : w.ctx c = none)
    (hreg : (w.create c).register c = some (handle, w')) :
    issuing.Reachable ((w', (handle, c) :: live), handle :: handles) := by
  have hserved : Served (w, live) (.register c) (w', (handle, c) :: live) := .register hc hreg
  exact .step h ⟨hserved, rfl⟩

theorem issuing_retire {handle : ℕ} {handles : List ℕ}
    (h : issuing.Reachable ((w, live), handles)) (hretire : w.retire handle = some w') :
    issuing.Reachable ((w', live.filter fun e => e.1 ≠ handle), handles) := by
  have hserved : Served (w, live) (.retire handle) (w', live.filter fun e => e.1 ≠ handle) :=
    .retire hretire
  exact .step h ⟨hserved, rfl⟩

/-- Any number of services short of the wrap can start and end. -/
theorem idle_reachable : ∀ n, n + 1 ≤ 2 ^ 24 →
    ∃ w handles, issuing.Reachable ((w, []), handles) ∧ w.Idle n
  | 0, _ => ⟨_, [], .init ⟨⟨1, rfl⟩, rfl⟩, .init⟩
  | n + 1, hn => by
    obtain ⟨w, handles, hr, hidle⟩ := idle_reachable n (by omega)
    obtain ⟨w₁, w', hreg, hretire, hidle'⟩ := hidle.round (by omega)
    have hend := issuing_retire (issuing_register hr (hidle.fresh n le_rfl) hreg) hretire
    rw [List.filter_cons_of_neg (by simp)] at hend
    exact ⟨w', _, hend, hidle'⟩

/-- After `2 ^ 24 - 1` services the next one is returned the local part of the system. -/
theorem reserved_issued :
    ¬ ∀ p, issuing.Reachable p → ∀ handle ∈ p.2, localPart handle ≠ 0 := by
  intro hall
  obtain ⟨n, hn⟩ : ∃ n, n + 1 = 2 ^ 24 := ⟨2 ^ 24 - 1, by decide⟩
  obtain ⟨w, handles, hr, hidle⟩ := idle_reachable n hn.le
  have hlast := issuing_register hr (hidle.fresh n le_rfl) hidle.register
  refine hall _ hlast _ List.mem_cons_self ?_
  rw [localPart_or (by rw [hidle.harbor]; decide), hn, Nat.mod_self]
  rfl

end Handles

end DnServer.Skynet
