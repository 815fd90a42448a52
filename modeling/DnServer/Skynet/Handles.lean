import DnServer.Lib.Transition

/-!
# The handles of the services

From `skynet_handle.c`. The slot of a service is the end of its handle, so a table
of `slot_size` entries needs no search: `register` probes the handles from a running
index on until it meets a free slot, and doubles the table when there is none. A
failed assertion and a pointer that is not allocated are `none`.

* `registry_sound`: `Fine` says that a handle stands in its own slot and that the live
  ones are the handles of the table; `Fine.register` has room by doubling, `Fine.grow`
  moves every context.
-/

namespace DnServer.Skynet

open DnServer.Lib

def HANDLE_MASK : ℕ := 0xffffff

def HANDLE_REMOTE_SHIFT : ℕ := 24

def DEFAULT_SLOT_SIZE : ℕ := 4

/-- `struct skynet_context`, as far as the handles go. -/
structure SkynetContext where
  handle : ℕ
  ref : UInt32

/-- `struct handle_name`. -/
structure HandleName where
  name : List UInt8
  handle : ℕ

/-- `struct handle_storage`; a slot holds the address of a context. -/
structure HandleStorage where
  harbor : ℕ
  handle_index : ℕ
  slot_size : ℕ
  slot : ℕ → Option ℕ
  name : List HandleName

namespace HandleStorage

/-- `skynet_handle_init`. -/
def init (harbor : ℕ) : HandleStorage where
  harbor := (harbor &&& 0xff) <<< HANDLE_REMOTE_SHIFT
  handle_index := 1
  slot_size := DEFAULT_SLOT_SIZE
  slot := fun _ => none
  name := []

def hash (s : HandleStorage) (handle : ℕ) : ℕ := handle &&& (s.slot_size - 1)

/-- The handle that is tried in round `i` of the loop. -/
def candidate (s : HandleStorage) (i : ℕ) : ℕ := (i + s.handle_index) &&& HANDLE_MASK

/-- The first handle whose slot is free. -/
def probe (s : HandleStorage) : Option ℕ :=
  ((List.range s.slot_size).map s.candidate).find? fun handle => (s.slot (s.hash handle)).isNone

end HandleStorage

/-- The storage, and the contexts that are allocated, by their addresses. -/
structure Handles where
  H : HandleStorage
  ctx : ℕ → Option SkynetContext

namespace Handles

/-- `malloc` and the first lines of `skynet_context_new`. -/
def create (w : Handles) (c : ℕ) : Handles :=
  { w with ctx := Function.update w.ctx c (some ⟨0, 2⟩) }

/-- One round of the loop that moves the contexts to the new table. -/
def rehash (w : Handles) (new_slot : ℕ → Option ℕ) (i : ℕ) : Option (ℕ → Option ℕ) := do
  let c ← w.H.slot i
  let context ← w.ctx c
  let hash := context.handle &&& (w.H.slot_size * 2 - 1)
  if (new_slot hash).isSome then
    none
  return Function.update new_slot hash (some c)

/-- The table with twice as many slots. -/
def grow (w : Handles) : Option Handles := do
  if ¬ w.H.slot_size * 2 - 1 ≤ HANDLE_MASK then
    none
  let new_slot ← (List.range w.H.slot_size).foldlM w.rehash fun _ => none
  return { w with H := { w.H with slot := new_slot, slot_size := w.H.slot_size * 2 } }

/-- A slot is taken and `skynet_context_init` called. -/
def place (w : Handles) (handle c : ℕ) : Option (ℕ × Handles) := do
  let context ← w.ctx c
  let H := { w.H with
    slot := Function.update w.H.slot (w.H.hash handle) (some c)
    handle_index := handle + 1 }
  let handle := handle ||| w.H.harbor
  return (handle, ⟨H, Function.update w.ctx c (some { context with handle := handle })⟩)

/-- The loop of `skynet_handle_register`, with a bound on its rounds. -/
def registerLoop : ℕ → Handles → ℕ → Option (ℕ × Handles)
  | 0, _, _ => none
  | n + 1, w, c =>
    match w.H.probe with
    | some handle => w.place handle c
    | none => w.grow.bind fun w => registerLoop n w c

/-- `skynet_handle_register`; the table cannot double 24 times. -/
def register (w : Handles) (c : ℕ) : Option (ℕ × Handles) := registerLoop 24 w c

/-- `skynet_context_grab`. -/
def contextGrab (w : Handles) (c : ℕ) : Option Handles := do
  let context ← w.ctx c
  return { w with ctx := Function.update w.ctx c (some { context with ref := context.ref + 1 }) }

/-- `skynet_context_release`. -/
def contextRelease (w : Handles) (c : ℕ) : Option Handles := do
  let context ← w.ctx c
  let ref := context.ref - 1
  return { w with
    ctx := Function.update w.ctx c (if ref = 0 then none else some { context with ref := ref }) }

/-- `skynet_handle_retire`. -/
def retire (w : Handles) (handle : ℕ) : Option Handles :=
  match w.H.slot (w.H.hash handle) with
  | none => some w
  | some c => do
    let context ← w.ctx c
    if context.handle = handle then
      let w ← w.contextRelease c
      return { w with H := { w.H with
        slot := Function.update w.H.slot (w.H.hash handle) none
        name := w.H.name.filter fun n => n.handle ≠ handle } }
    return w

/-- `skynet_handle_grab`. -/
def grab (w : Handles) (handle : ℕ) : Option (Option ℕ × Handles) :=
  match w.H.slot (w.H.hash handle) with
  | none => some (none, w)
  | some c => do
    let context ← w.ctx c
    if context.handle = handle then
      let w ← w.contextGrab c
      return (some c, w)
    return (none, w)

/-! ## Any order of the operations -/

inductive Op where
  | register (c : ℕ)
  | retire (handle : ℕ)
  | grab (handle : ℕ)
deriving DecidableEq

/-- The services that are registered and not retired, with their handles. -/
abbrev Live := List (ℕ × ℕ)

/-- A context that `malloc` has just returned is registered while fewer than `2 ^ 24 - 1`
services live; any handle is retired or grabbed. -/
inductive Step : Handles × Live → Op → Handles × Live → Prop
  | register {w w' live c handle} : w.ctx c = none → live.length < 2 ^ 24 - 1 →
      (w.create c).register c = some (handle, w') →
      Step (w, live) (.register c) (w', (handle, c) :: live)
  | retire {w w' live handle} : w.retire handle = some w' →
      Step (w, live) (.retire handle) (w', live.filter fun e => e.1 ≠ handle)
  | grab {w w' live handle result} : w.grab handle = some (result, w') →
      Step (w, live) (.grab handle) (w', live)

def system : TSys (Handles × Live) Op where
  init p := ∃ harbor, p = (⟨.init harbor, fun _ => none⟩, [])
  step := Step

/-! ## Slots and handles -/

/-- The table has a power of two of slots, a slot is the end of the handle in it, and the
contexts in the table are those that are live. -/
structure Fine (w : Handles) (live : Live) : Prop where
  size : ∃ k ≤ 24, w.H.slot_size = 2 ^ k
  harbor : 2 ^ 24 ∣ w.H.harbor
  slots : ∀ i c, w.H.slot i = some c ↔ ∃ h, (h, c) ∈ live ∧ w.H.hash h = i
  handles : ∀ h c, (h, c) ∈ live → ∃ x, w.ctx c = some x ∧ x.handle = h
  nodup : (live.map Prod.fst).Nodup

variable {w : Handles} {live : Live}

theorem hash_eq {s : HandleStorage} {k : ℕ} (h : s.slot_size = 2 ^ k) (handle : ℕ) :
    s.hash handle = handle % 2 ^ k := by
  rw [HandleStorage.hash, h, Nat.and_two_pow_sub_one_eq_mod]

theorem candidate_eq (s : HandleStorage) (i : ℕ) :
    s.candidate i = (i + s.handle_index) % 2 ^ 24 := Nat.and_two_pow_sub_one_eq_mod _ 24

/-- The harbor stands above the part of a handle that finds its slot. -/
theorem hash_or {s : HandleStorage} (hsize : ∃ k ≤ 24, s.slot_size = 2 ^ k)
    (hharbor : 2 ^ 24 ∣ s.harbor) (handle : ℕ) : s.hash (handle ||| s.harbor) = s.hash handle := by
  obtain ⟨k, hk, hs⟩ := hsize
  have hzero : s.harbor &&& (2 ^ k - 1) = 0 := by
    rw [Nat.and_two_pow_sub_one_eq_mod]
    exact Nat.mod_eq_zero_of_dvd ((Nat.pow_dvd_pow 2 hk).trans hharbor)
  rw [HandleStorage.hash, HandleStorage.hash, hs, Nat.and_or_distrib_right, hzero, Nat.or_zero]

/-- As many handles in a row as there are slots meet every slot. -/
theorem exists_candidate {s : HandleStorage} (hsize : ∃ k ≤ 24, s.slot_size = 2 ^ k) {j : ℕ}
    (hj : j < s.slot_size) : ∃ i < s.slot_size, s.hash (s.candidate i) = j := by
  obtain ⟨k, hk, hs⟩ := hsize
  have hdvd : 2 ^ k ∣ 2 ^ 24 := Nat.pow_dvd_pow 2 hk
  rw [hs] at hj ⊢
  have hsplit := Nat.div_add_mod s.handle_index (2 ^ k)
  simp only [hash_eq hs, candidate_eq, Nat.mod_mod_of_dvd _ hdvd]
  by_cases hle : s.handle_index % 2 ^ k ≤ j
  · refine ⟨j - s.handle_index % 2 ^ k, by omega, ?_⟩
    have hsum : j - s.handle_index % 2 ^ k + s.handle_index =
        2 ^ k * (s.handle_index / 2 ^ k) + j := by omega
    rw [hsum, Nat.mul_add_mod, Nat.mod_eq_of_lt hj]
  · refine ⟨j + 2 ^ k - s.handle_index % 2 ^ k, by omega, ?_⟩
    have hsum : j + 2 ^ k - s.handle_index % 2 ^ k + s.handle_index =
        2 ^ k * (s.handle_index / 2 ^ k + 1) + j := by
      rw [Nat.mul_add_one]
      omega
    rw [hsum, Nat.mul_add_mod, Nat.mod_eq_of_lt hj]

theorem Fine.hash_lt (h : w.Fine live) (handle : ℕ) : w.H.hash handle < w.H.slot_size := by
  obtain ⟨k, -, hs⟩ := h.size
  rw [hash_eq hs, hs]
  exact Nat.mod_lt _ (Nat.two_pow_pos k)

/-- The slot of a live handle holds its context. -/
theorem Fine.slot (h : w.Fine live) {handle c : ℕ} (hl : (handle, c) ∈ live) :
    w.H.slot (w.H.hash handle) = some c := (h.slots _ c).mpr ⟨handle, hl, rfl⟩

/-- Two live services with one slot are one. -/
theorem Fine.hash_inj (h : w.Fine live) {a b : ℕ × ℕ} (ha : a ∈ live) (hb : b ∈ live)
    (hhash : w.H.hash a.1 = w.H.hash b.1) : a = b := by
  have hslot := h.slot ha
  rw [hhash, h.slot hb] at hslot
  have hc : b.2 = a.2 := Option.some.inj hslot
  obtain ⟨x, hx, hxa⟩ := h.handles _ _ ha
  obtain ⟨y, hy, hyb⟩ := h.handles _ _ hb
  rw [hc, hx] at hy
  obtain rfl := Option.some.inj hy
  exact Prod.ext (hxa.symm.trans hyb) hc.symm

/-- The slots of the live services are different. -/
theorem Fine.nodup_hash (h : w.Fine live) : (live.map fun e => w.H.hash e.1).Nodup :=
  (List.nodup_map_iff_inj_on h.nodup.of_map).mpr fun _ ha _ hb hhash => h.hash_inj ha hb hhash

theorem Fine.length_le (h : w.Fine live) : live.length ≤ w.H.slot_size := by
  have hsub : live.map (fun e => w.H.hash e.1) ⊆ List.range w.H.slot_size := fun i hi => by
    obtain ⟨e, -, rfl⟩ := List.mem_map.mp hi
    exact List.mem_range.mpr (h.hash_lt e.1)
  have hle := (h.nodup_hash.subperm hsub).length_le
  rwa [List.length_map, List.length_range] at hle

/-- In a full table every slot has its live service. -/
theorem Fine.le_length (h : w.Fine live) (hfull : ∀ i < w.H.slot_size, (w.H.slot i).isSome) :
    w.H.slot_size ≤ live.length := by
  have hsub : List.range w.H.slot_size ⊆ live.map fun e => w.H.hash e.1 := fun i hi => by
    obtain ⟨c, hc⟩ := Option.isSome_iff_exists.mp (hfull i (List.mem_range.mp hi))
    obtain ⟨handle, hl, rfl⟩ := (h.slots i c).mp hc
    exact List.mem_map.mpr ⟨_, hl, rfl⟩
  have hle := (List.nodup_range.subperm hsub).length_le
  rwa [List.length_map, List.length_range] at hle

/-- The probe finds no handle only in a full table. -/
theorem Fine.full_of_probe (h : w.Fine live) (hprobe : w.H.probe = none) :
    ∀ i < w.H.slot_size, (w.H.slot i).isSome := by
  intro j hj
  obtain ⟨i, hi, rfl⟩ := exists_candidate h.size hj
  have hnone := List.find?_eq_none.mp hprobe _ (List.mem_map_of_mem (List.mem_range.mpr hi))
  rwa [Bool.not_eq_true, Option.isNone_eq_false_iff] at hnone

theorem slot_of_probe {s : HandleStorage} {handle : ℕ} (hprobe : s.probe = some handle) :
    s.slot (s.hash handle) = none := by
  have hfree := List.find?_some hprobe
  exact Option.isNone_iff_eq_none.mp hfree

/-! ## Growth -/

/-- What the new table holds when the contexts of the first `n` slots are in it. -/
def Moved (w : Handles) (live : Live) (n : ℕ) (new_slot : ℕ → Option ℕ) : Prop :=
  ∀ j c, new_slot j = some c ↔
    ∃ h, (h, c) ∈ live ∧ w.H.hash h < n ∧ h &&& (w.H.slot_size * 2 - 1) = j

/-- Handles with one end in the new table have one end in the old table. -/
theorem Fine.hash_of_double (h : w.Fine live) {a b : ℕ}
    (hab : a &&& (w.H.slot_size * 2 - 1) = b &&& (w.H.slot_size * 2 - 1)) :
    w.H.hash a = w.H.hash b := by
  obtain ⟨k, -, hs⟩ := h.size
  rw [hs, ← pow_succ, Nat.and_two_pow_sub_one_eq_mod, Nat.and_two_pow_sub_one_eq_mod] at hab
  rw [hash_eq hs, hash_eq hs, ← Nat.mod_mod_of_dvd a (Nat.pow_dvd_pow 2 (Nat.le_succ k)), hab,
    Nat.mod_mod_of_dvd b (Nat.pow_dvd_pow 2 (Nat.le_succ k))]

/-- The next context finds its place in the new table free. -/
theorem Fine.rehash_moved (h : w.Fine live) {n c : ℕ} {new_slot : ℕ → Option ℕ}
    (hc : w.H.slot n = some c) (hm : Moved w live n new_slot) :
    ∃ new_slot', w.rehash new_slot n = some new_slot' ∧ Moved w live (n + 1) new_slot' := by
  obtain ⟨handle, hl, hn⟩ := (h.slots n c).mp hc
  obtain ⟨x, hx, hxh⟩ := h.handles _ _ hl
  have hfree : new_slot (handle &&& (w.H.slot_size * 2 - 1)) = none := by
    rw [Option.eq_none_iff_forall_ne_some]
    intro c' hc'
    obtain ⟨handle', -, hlt, hhash⟩ := (hm _ c').mp hc'
    have := h.hash_of_double hhash
    omega
  refine ⟨Function.update new_slot (handle &&& (w.H.slot_size * 2 - 1)) (some c), ?_,
    fun j c' => ?_⟩
  · simp [rehash, hc, hx, hxh, hfree]
  · by_cases hj : j = handle &&& (w.H.slot_size * 2 - 1)
    · subst hj
      rw [Function.update_self]
      constructor
      · intro heq
        obtain rfl := Option.some.inj heq
        exact ⟨handle, hl, by omega, rfl⟩
      · rintro ⟨handle', hl', -, hhash⟩
        have hsame := h.hash_inj hl' hl (h.hash_of_double hhash)
        rw [(Prod.mk.inj hsame).2]
    · rw [Function.update_of_ne hj, hm j c']
      constructor
      · rintro ⟨handle', hl', hlt, hhash⟩
        exact ⟨handle', hl', by omega, hhash⟩
      · rintro ⟨handle', hl', hlt, hhash⟩
        refine ⟨handle', hl', lt_of_le_of_ne (Nat.lt_succ_iff.mp hlt) fun heq => ?_, hhash⟩
        have hsame := h.hash_inj hl' hl (heq.trans hn.symm)
        rw [(Prod.mk.inj hsame).1] at hhash
        exact hj hhash.symm

theorem Fine.rehash_all (h : w.Fine live) : ∀ n, (∀ i < n, (w.H.slot i).isSome) →
    ∃ new_slot, (List.range n).foldlM w.rehash (fun _ => none) = some new_slot ∧
      Moved w live n new_slot
  | 0, _ => ⟨fun _ => none, rfl, fun j c => by simp⟩
  | n + 1, hfull => by
    obtain ⟨new_slot, hfold, hm⟩ := h.rehash_all n fun i hi => hfull i (Nat.lt_succ_of_lt hi)
    obtain ⟨c, hc⟩ := Option.isSome_iff_exists.mp (hfull n (Nat.lt_succ_self n))
    obtain ⟨new_slot', hstep, hm'⟩ := h.rehash_moved hc hm
    refine ⟨new_slot', ?_, hm'⟩
    rw [List.range_succ, List.foldlM_append, hfold]
    simp [hstep]

/-- A full table with fewer than `2 ^ 24 - 1` services grows, and every live context is in
its place in the larger table. -/
theorem Fine.grow (h : w.Fine live) (hfull : ∀ i < w.H.slot_size, (w.H.slot i).isSome)
    (hlive : live.length < 2 ^ 24 - 1) :
    ∃ w', w.grow = some w' ∧ w'.Fine live ∧ w'.ctx = w.ctx ∧
      w'.H.slot_size = w.H.slot_size * 2 := by
  have hle := h.le_length hfull
  obtain ⟨new_slot, hfold, hm⟩ := h.rehash_all w.H.slot_size hfull
  obtain ⟨k, hk, hs⟩ := h.size
  have hk' : k < 24 := by
    by_contra hge
    obtain rfl : k = 24 := by omega
    omega
  have hbound : 2 ^ (k + 1) ≤ 2 ^ 24 := Nat.pow_le_pow_right (by decide) hk'
  rw [pow_succ] at hbound
  refine ⟨{ w with H := { w.H with slot := new_slot, slot_size := w.H.slot_size * 2 } }, ?_,
    ⟨⟨k + 1, hk', by rw [hs, pow_succ]⟩, h.harbor, fun j c => ?_, h.handles, h.nodup⟩, rfl, rfl⟩
  · have hmask : w.H.slot_size * 2 - 1 ≤ HANDLE_MASK := by
      rw [hs, HANDLE_MASK]
      omega
    rw [Handles.grow, if_neg (not_not.mpr hmask)]
    simp [hfold]
  · rw [hm j c]
    constructor
    · rintro ⟨handle, hl, -, hhash⟩
      exact ⟨handle, hl, hhash⟩
    · rintro ⟨handle, hl, hhash⟩
      exact ⟨handle, hl, h.hash_lt handle, hhash⟩

/-! ## The operations -/

/-- A slot that was free gets a service with a new handle. -/
theorem Fine.place (h : w.Fine live) {handle c : ℕ} {x : SkynetContext}
    (hfree : w.H.slot (w.H.hash handle) = none) (hx : w.ctx c = some x)
    (hc : ∀ e ∈ live, e.2 ≠ c) :
    ∃ w', w.place handle c = some (handle ||| w.H.harbor, w') ∧
      w'.Fine ((handle ||| w.H.harbor, c) :: live) := by
  have hhash := hash_or h.size h.harbor handle
  have hplace : w.place handle c = some (handle ||| w.H.harbor,
      ⟨{ w.H with
          slot := Function.update w.H.slot (w.H.hash handle) (some c), handle_index := handle + 1 },
        Function.update w.ctx c (some { x with handle := handle ||| w.H.harbor })⟩) := by
    rw [Handles.place, hx]
    rfl
  refine ⟨_, hplace, h.size, h.harbor, fun i c' => ?_, fun handle' c' hl => ?_, ?_⟩
  · show Function.update w.H.slot (w.H.hash handle) (some c) i = some c' ↔
      ∃ h', (h', c') ∈ (handle ||| w.H.harbor, c) :: live ∧ w.H.hash h' = i
    by_cases hi : i = w.H.hash handle
    · subst hi
      rw [Function.update_self]
      constructor
      · intro heq
        obtain rfl := Option.some.inj heq
        exact ⟨_, List.mem_cons_self, hhash⟩
      · rintro ⟨h', hl, hh'⟩
        rcases List.mem_cons.mp hl with heq | hl
        · rw [(Prod.mk.inj heq).2]
        · have hslot := h.slot hl
          rw [hh', hfree] at hslot
          cases hslot
    · rw [Function.update_of_ne hi, h.slots i c']
      constructor
      · rintro ⟨h', hl, hh'⟩
        exact ⟨h', List.mem_cons_of_mem _ hl, hh'⟩
      · rintro ⟨h', hl, hh'⟩
        rcases List.mem_cons.mp hl with heq | hl
        · rw [(Prod.mk.inj heq).1, hhash] at hh'
          exact absurd hh'.symm hi
        · exact ⟨h', hl, hh'⟩
  · rcases List.mem_cons.mp hl with heq | hl
    · obtain ⟨rfl, rfl⟩ := Prod.mk.inj heq
      exact ⟨_, Function.update_self .., rfl⟩
    · obtain ⟨y, hy, hyh⟩ := h.handles _ _ hl
      exact ⟨y, by rw [← hy]; exact Function.update_of_ne (hc _ hl) _ _, hyh⟩
  · rw [List.map_cons, List.nodup_cons]
    refine ⟨fun hmem => ?_, h.nodup⟩
    obtain ⟨e, hl, heq⟩ := List.mem_map.mp hmem
    have hslot := h.slot hl
    rw [heq, hhash, hfree] at hslot
    cases hslot

/-- The context that registers is none of the live ones. -/
theorem Fine.create (h : w.Fine live) {c : ℕ} (hc : w.ctx c = none) :
    (w.create c).Fine live ∧ (w.create c).ctx c = some ⟨0, 2⟩ ∧ ∀ e ∈ live, e.2 ≠ c := by
  have hne : ∀ e ∈ live, e.2 ≠ c := by
    rintro e hl rfl
    obtain ⟨x, hx, -⟩ := h.handles _ _ hl
    rw [hc] at hx
    cases hx
  refine ⟨⟨h.size, h.harbor, h.slots, fun handle c' hl => ?_, h.nodup⟩, Function.update_self ..,
    hne⟩
  obtain ⟨x, hx, hxh⟩ := h.handles _ _ hl
  exact ⟨x, by rw [← hx]; exact Function.update_of_ne (hne _ hl) _ _, hxh⟩

/-- A registration finds a slot, after one growth at most. -/
theorem Fine.register (h : w.Fine live) {c : ℕ} (hc : w.ctx c = none)
    (hlive : live.length < 2 ^ 24 - 1) :
    ∃ handle w', (w.create c).register c = some (handle, w') ∧ w'.Fine ((handle, c) :: live) := by
  obtain ⟨hfine, hctx, hne⟩ := h.create hc
  unfold Handles.register
  rw [registerLoop]
  cases hprobe : (w.create c).H.probe with
  | some handle =>
    obtain ⟨w', hplace, hfine'⟩ := hfine.place (slot_of_probe hprobe) hctx hne
    exact ⟨_, w', hplace, hfine'⟩
  | none =>
    obtain ⟨w₁, hgrow, hfine₁, hctx₁, hsize⟩ := hfine.grow (hfine.full_of_probe hprobe) hlive
    simp only [hgrow, Option.bind_some]
    rw [registerLoop]
    cases hprobe₁ : w₁.H.probe with
    | some handle =>
      obtain ⟨w', hplace, hfine'⟩ := hfine₁.place (slot_of_probe hprobe₁) (hctx₁ ▸ hctx) hne
      exact ⟨_, w', hplace, hfine'⟩
    | none =>
      -- the larger table has more slots than there are services
      have hle := hfine.length_le
      have hge := hfine₁.le_length (hfine₁.full_of_probe hprobe₁)
      have hpos := hfine.hash_lt 0
      omega

/-- The slot of a handle that is not live is another's. -/
theorem Fine.slot_other (h : w.Fine live) {handle c : ℕ} (hnot : handle ∉ live.map Prod.fst)
    (hslot : w.H.slot (w.H.hash handle) = some c) : ∃ x, w.ctx c = some x ∧ x.handle ≠ handle := by
  obtain ⟨handle', hl, -⟩ := (h.slots _ c).mp hslot
  obtain ⟨x, hx, rfl⟩ := h.handles _ _ hl
  refine ⟨x, hx, ?_⟩
  rintro rfl
  exact hnot (List.mem_map_of_mem hl)

/-- A live handle is found, and nothing else is. -/
theorem Fine.grab (h : w.Fine live) (handle : ℕ) :
    (∀ c, (handle, c) ∈ live → ∃ x, w.ctx c = some x ∧
      w.grab handle = some (some c, { w with
        ctx := Function.update w.ctx c (some { x with ref := x.ref + 1 }) })) ∧
    (handle ∉ live.map Prod.fst → w.grab handle = some (none, w)) := by
  refine ⟨fun c hl => ?_, fun hnot => ?_⟩
  · obtain ⟨x, hx, hxh⟩ := h.handles _ _ hl
    refine ⟨x, hx, ?_⟩
    simp [Handles.grab, contextGrab, h.slot hl, hx, hxh]
  · unfold Handles.grab
    cases hslot : w.H.slot (w.H.hash handle) with
    | none => rfl
    | some c =>
      obtain ⟨x, hx, hne⟩ := h.slot_other hnot hslot
      simp [hx, hne]

/-- The contexts may change in what the handles do not depend on. -/
theorem Fine.recount (h : w.Fine live) {c : ℕ} {x : SkynetContext} (hx : w.ctx c = some x)
    (ref : UInt32) :
    Fine { w with ctx := Function.update w.ctx c (some { x with ref := ref }) } live := by
  refine ⟨h.size, h.harbor, h.slots, fun handle c' hl => ?_, h.nodup⟩
  obtain ⟨y, hy, hyh⟩ := h.handles _ _ hl
  by_cases hc : c' = c
  · subst hc
    rw [hx] at hy
    obtain rfl := Option.some.inj hy
    exact ⟨_, Function.update_self .., hyh⟩
  · exact ⟨y, by rw [← hy]; exact Function.update_of_ne hc _ _, hyh⟩

/-- A grab changes nothing the handles depend on. -/
theorem Fine.of_grab (h : w.Fine live) {handle : ℕ} {w' : Handles} {result : Option ℕ}
    (hgrab : w.grab handle = some (result, w')) : w'.Fine live := by
  obtain ⟨hlive, hother⟩ := h.grab handle
  by_cases hmem : handle ∈ live.map Prod.fst
  · obtain ⟨⟨handle', c⟩, hl, rfl⟩ := List.mem_map.mp hmem
    obtain ⟨x, hx, hgrab'⟩ := hlive c hl
    rw [hgrab] at hgrab'
    obtain ⟨rfl, rfl⟩ := Prod.mk.inj (Option.some.inj hgrab')
    exact h.recount hx _
  · have hgrab' := hother hmem
    rw [hgrab] at hgrab'
    obtain ⟨rfl, rfl⟩ := Prod.mk.inj (Option.some.inj hgrab')
    exact h

/-- A retirement that finds the context of the handle. -/
theorem retire_of_slot {handle c : ℕ} {x : SkynetContext}
    (hslot : w.H.slot (w.H.hash handle) = some c) (hx : w.ctx c = some x)
    (hxh : x.handle = handle) : w.retire handle = some
      ⟨{ w.H with
          slot := Function.update w.H.slot (w.H.hash handle) none
          name := w.H.name.filter fun n => n.handle ≠ handle },
        Function.update w.ctx c
          (if x.ref - 1 = 0 then none else some { x with ref := x.ref - 1 })⟩ := by
  simp [Handles.retire, contextRelease, hslot, hx, hxh]

/-- The slot of a live handle is cleared, and its context loses a reference. -/
theorem Fine.retire_live (h : w.Fine live) {handle c : ℕ} (hl : (handle, c) ∈ live) :
    ∃ w', w.retire handle = some w' ∧ w'.Fine (live.filter fun e => e.1 ≠ handle) := by
  obtain ⟨x, hx, hxh⟩ := h.handles _ _ hl
  have hretire := retire_of_slot (h.slot hl) hx hxh
  refine ⟨_, hretire, h.size, h.harbor, fun i c' => ?_, fun handle' c' hl' => ?_, ?_⟩
  · show Function.update w.H.slot (w.H.hash handle) none i = some c' ↔
      ∃ h', (h', c') ∈ live.filter (fun e => e.1 ≠ handle) ∧ w.H.hash h' = i
    simp only [List.mem_filter, decide_eq_true_eq]
    by_cases hi : i = w.H.hash handle
    · subst hi
      rw [Function.update_self]
      constructor
      · intro heq
        cases heq
      · rintro ⟨h', ⟨hl', hne⟩, hh'⟩
        exact absurd (Prod.mk.inj (h.hash_inj hl' hl hh')).1 hne
    · rw [Function.update_of_ne hi, h.slots i c']
      constructor
      · rintro ⟨h', hl', rfl⟩
        refine ⟨h', ⟨hl', ?_⟩, rfl⟩
        rintro rfl
        exact hi rfl
      · rintro ⟨h', ⟨hl', -⟩, hh'⟩
        exact ⟨h', hl', hh'⟩
  · obtain ⟨hl', hne⟩ := List.mem_filter.mp hl'
    obtain ⟨y, hy, hyh⟩ := h.handles _ _ hl'
    have hc : c' ≠ c := by
      rintro rfl
      rw [hx] at hy
      obtain rfl := Option.some.inj hy
      exact of_decide_eq_true hne (hyh.symm.trans hxh)
    exact ⟨y, by rw [← hy]; exact Function.update_of_ne hc _ _, hyh⟩
  · exact h.nodup.sublist (List.filter_sublist.map Prod.fst)

/-- A handle that is not live is not retired. -/
theorem Fine.retire_other (h : w.Fine live) {handle : ℕ} (hnot : handle ∉ live.map Prod.fst) :
    w.retire handle = some w ∧ live.filter (fun e => e.1 ≠ handle) = live := by
  constructor
  · unfold Handles.retire
    cases hslot : w.H.slot (w.H.hash handle) with
    | none => rfl
    | some c =>
      obtain ⟨x, hx, hne⟩ := h.slot_other hnot hslot
      simp [hx, hne]
  · refine List.filter_eq_self.mpr fun e he => decide_eq_true fun heq => ?_
    exact hnot (heq ▸ List.mem_map_of_mem he)

theorem Fine.retire (h : w.Fine live) (handle : ℕ) :
    ∃ w', w.retire handle = some w' ∧ w'.Fine (live.filter fun e => e.1 ≠ handle) := by
  by_cases hmem : handle ∈ live.map Prod.fst
  · obtain ⟨⟨handle', c⟩, hl, rfl⟩ := List.mem_map.mp hmem
    exact h.retire_live hl
  · obtain ⟨hretire, hfilter⟩ := h.retire_other hmem
    exact ⟨w, hretire, hfilter.symm ▸ h⟩

theorem Fine.of_retire (h : w.Fine live) {handle : ℕ} {w' : Handles}
    (hretire : w.retire handle = some w') : w'.Fine (live.filter fun e => e.1 ≠ handle) := by
  obtain ⟨w₁, hretire', hfine⟩ := h.retire handle
  rw [hretire] at hretire'
  obtain rfl := Option.some.inj hretire'
  exact hfine

/-! ## Every run -/

theorem init_fine (harbor : ℕ) : Fine ⟨.init harbor, fun _ => none⟩ [] where
  size := ⟨2, by decide, rfl⟩
  harbor := by
    rw [HandleStorage.init, Nat.shiftLeft_eq]
    exact Nat.dvd_mul_left _ _
  slots i c := by simp [HandleStorage.init]
  handles handle c hl := absurd hl List.not_mem_nil
  nodup := List.nodup_nil

theorem fine_invariant : system.Invariant fun p => p.1.Fine p.2 := by
  refine TSys.Inductive.invariant ⟨?_, fun p op q _ h hstep => ?_⟩
  · rintro _ ⟨harbor, rfl⟩
    exact init_fine harbor
  · cases hstep with
    | register hc hlive hreg =>
      obtain ⟨handle, w', hreg', hfine⟩ := h.register hc hlive
      rw [hreg] at hreg'
      obtain ⟨rfl, rfl⟩ := Prod.mk.inj (Option.some.inj hreg')
      exact hfine
    | retire hretire => exact h.of_retire hretire
    | grab hgrab => exact h.of_grab hgrab

/-- **The handle registry.** After any order of registrations, retirements and grabs the live
handles are different; a grab returns the context registered under its handle, with one more
reference, just when the handle is live; a full table grows with every live context in its
place, and with fewer than `2 ^ 24 - 1` services no operation fails. -/
theorem registry_sound {p : Handles × Live} (h : system.Reachable p) :
    (p.2.map Prod.fst).Nodup ∧
      (∀ handle c, (handle, c) ∈ p.2 → ∃ x, p.1.ctx c = some x ∧ x.handle = handle ∧
        p.1.grab handle = some (some c, { p.1 with
          ctx := Function.update p.1.ctx c (some { x with ref := x.ref + 1 }) })) ∧
      (∀ handle, handle ∉ p.2.map Prod.fst → p.1.grab handle = some (none, p.1)) ∧
      (∀ handle, (p.1.retire handle).isSome) ∧
      (p.2.length < 2 ^ 24 - 1 →
        (∀ c, p.1.ctx c = none → ((p.1.create c).register c).isSome) ∧
        (p.1.H.probe = none → ∃ w, p.1.grow = some w ∧
          ∀ handle c, (handle, c) ∈ p.2 → w.H.slot (w.H.hash handle) = some c)) := by
  have hfine := fine_invariant p h
  refine ⟨hfine.nodup, fun handle c hl => ?_, fun handle => (hfine.grab handle).2, fun handle => ?_,
    fun hlive => ⟨fun c hc => ?_, fun hprobe => ?_⟩⟩
  · obtain ⟨x, hx, hgrab⟩ := (hfine.grab handle).1 c hl
    obtain ⟨y, hy, hyh⟩ := hfine.handles _ _ hl
    rw [hx] at hy
    obtain rfl := Option.some.inj hy
    exact ⟨x, hx, hyh, hgrab⟩
  · obtain ⟨w', hretire, -⟩ := hfine.retire handle
    rw [hretire, Option.isSome_some]
  · obtain ⟨handle, w', hreg, -⟩ := hfine.register hc hlive
    rw [hreg, Option.isSome_some]
  · obtain ⟨w, hgrow, hfine', -⟩ := hfine.grow (hfine.full_of_probe hprobe) hlive
    exact ⟨w, hgrow, fun handle c hl => hfine'.slot hl⟩

def exec (p : Handles × Live) : Op → Option (Handles × Live)
  | .register c =>
    if (p.1.ctx c).isNone ∧ p.2.length < 2 ^ 24 - 1 then
      ((p.1.create c).register c).map fun q => (q.2, (q.1, c) :: p.2)
    else none
  | .retire handle => (p.1.retire handle).map fun w => (w, p.2.filter fun e => e.1 ≠ handle)
  | .grab handle => (p.1.grab handle).map fun q => (q.2, p.2)

theorem exec_step (p : Handles × Live) (op : Op) (q : Handles × Live) (h : exec p op = some q) :
    system.step p op q := by
  cases op with
  | register c =>
    by_cases hnew : (p.1.ctx c).isNone ∧ p.2.length < 2 ^ 24 - 1
    · rw [exec, if_pos hnew] at h
      obtain ⟨⟨handle, w⟩, hreg, rfl⟩ := Option.map_eq_some_iff.mp h
      exact .register (Option.isNone_iff_eq_none.mp hnew.1) hnew.2 hreg
    · rw [exec, if_neg hnew] at h
      cases h
  | retire handle =>
    obtain ⟨w, hretire, rfl⟩ := Option.map_eq_some_iff.mp h
    exact .retire hretire
  | grab handle =>
    obtain ⟨⟨result, w⟩, hgrab, rfl⟩ := Option.map_eq_some_iff.mp h
    exact .grab hgrab

/-- Nine services have registered in a table of four slots, which has grown once; the first is
retired and its slot taken by the last. The table is full again: it grows, the last service is
found, and the first is not. -/
theorem registry_sound_grown : ∃ p, system.Reachable p ∧ p.1.H.slot_size = 8 ∧
    (∃ w, p.1.grab 0x1000009 = some (some 8, w)) ∧ p.1.grab 0x1000001 = some (none, p.1) ∧
      ∃ w, p.1.grow = some w ∧ w.H.slot (w.H.hash 0x1000009) = some 8 := by
  obtain ⟨p, hp, hend⟩ := TSys.reachable_of_exec exec_step
    (s := (⟨.init 1, fun _ => none⟩, [])) ⟨1, rfl⟩
    (l := [.register 0, .register 1, .register 2, .register 3, .register 4, .retire 0x1000001,
      .grab 0x1000002, .register 5, .register 6, .register 7, .register 8])
    (p := fun p => decide (p.1.H.slot_size = 8 ∧ p.1.H.probe = none ∧ (0x1000009, 8) ∈ p.2 ∧
      0x1000001 ∉ p.2.map Prod.fst ∧ p.2.length < 2 ^ 24 - 1)) (by decide +kernel)
  obtain ⟨hsize, hprobe, hlast, hfirst, hlive⟩ := of_decide_eq_true hend
  obtain ⟨-, hfound, hnot, -, hroom⟩ := registry_sound hp
  obtain ⟨x, -, -, hgrab⟩ := hfound _ _ hlast
  obtain ⟨w, hgrow, hslot⟩ := (hroom hlive).2 hprobe
  exact ⟨p, hp, hsize, ⟨_, hgrab⟩, hnot _ hfirst, w, hgrow, hslot _ _ hlast⟩

end Handles

end DnServer.Skynet
