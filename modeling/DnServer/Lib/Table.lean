import Mathlib

/-!
# Association tables with a traversal order

A `Table κ α` holds at most one value for each key and remembers the order in
which its entries are visited. Assignment to a present key keeps the key's
place; a new key goes to the end. The order is data, not meaning: `SameEntries`
relates two tables that differ in nothing else, and lookups, membership, sizes
and sums do not see the difference.
-/

namespace DnServer.Lib

universe u v

/-- Entries in traversal order, no key twice. -/
structure Table (κ : Type u) (α : Type v) where
  pairs : List (κ × α)
  nodup : (pairs.map Prod.fst).Nodup
deriving DecidableEq

namespace Table

variable {κ : Type u} {α β : Type v}

/-- The keys in traversal order. -/
def keys (t : Table κ α) : List κ := t.pairs.map Prod.fst

/-- Number of entries. -/
def size (t : Table κ α) : Nat := t.pairs.length

instance : Membership κ (Table κ α) := ⟨fun t k => k ∈ t.keys⟩

instance [DecidableEq κ] (k : κ) (t : Table κ α) : Decidable (k ∈ t) :=
  inferInstanceAs (Decidable (k ∈ t.keys))

/-- The table without entries. -/
def empty : Table κ α := ⟨[], List.nodup_nil⟩

instance : Inhabited (Table κ α) := ⟨empty⟩

/-- Rewrite every value, each with its key. -/
def mapVal (t : Table κ α) (f : κ → α → β) : Table κ β :=
  ⟨t.pairs.map fun p => (p.1, f p.1 p.2), by
    simpa [List.map_map, Function.comp_def] using t.nodup⟩

/-- Same entries, possibly another traversal order. -/
def SameEntries (s t : Table κ α) : Prop := s.pairs.Perm t.pairs

/-- Sum of a value read off each entry. -/
def sum {M : Type*} [AddCommMonoid M] (t : Table κ α) (f : κ → α → M) : M :=
  (t.pairs.map fun p => f p.1 p.2).sum

/-! ## Keys and sizes -/

theorem mem_of_mem_pairs {t : Table κ α} {p : κ × α} (h : p ∈ t.pairs) : p.1 ∈ t :=
  List.mem_map_of_mem h

@[simp] theorem not_mem_empty (k : κ) : k ∉ (empty : Table κ α) := List.not_mem_nil

@[simp] theorem size_empty : (empty : Table κ α).size = 0 := rfl

@[simp] theorem keys_mapVal (t : Table κ α) (f : κ → α → β) : (t.mapVal f).keys = t.keys := by
  simp [keys, mapVal, Function.comp_def]

@[simp] theorem mem_mapVal {t : Table κ α} {f : κ → α → β} {k : κ} :
    k ∈ t.mapVal f ↔ k ∈ t := by
  show k ∈ (t.mapVal f).keys ↔ k ∈ t.keys
  rw [keys_mapVal]

@[simp] theorem size_mapVal (t : Table κ α) (f : κ → α → β) : (t.mapVal f).size = t.size :=
  List.length_map _

theorem size_eq_length_keys (t : Table κ α) : t.size = t.keys.length := (List.length_map _).symm

/-- A table whose keys all occur in another is no larger. -/
theorem size_le_of_subset {γ : Type*} {s : Table κ α} {t : Table κ γ}
    (h : ∀ k, k ∈ s → k ∈ t) : s.size ≤ t.size := by
  rw [size_eq_length_keys, size_eq_length_keys]
  exact (List.subperm_of_subset s.nodup h).length_le

/-! ## Lookup -/

section Lookup

variable [DecidableEq κ]

/-- First value filed under `k` in a list of entries. -/
def find (k : κ) : List (κ × α) → Option α
  | [] => none
  | p :: rest => if p.1 = k then some p.2 else find k rest

/-- The value of key `k`, if it has one. -/
def get? (t : Table κ α) (k : κ) : Option α := find k t.pairs

theorem find_eq_some {k : κ} {v : α} : ∀ {l : List (κ × α)}, (l.map Prod.fst).Nodup →
    (find k l = some v ↔ (k, v) ∈ l)
  | [], _ => by simp [find]
  | p :: rest, hnd => by
    rw [List.map_cons, List.nodup_cons] at hnd
    obtain ⟨hp, hrest⟩ := hnd
    by_cases hk : p.1 = k
    · have hnot : (k, v) ∉ rest := fun h => hp (hk ▸ List.mem_map_of_mem h)
      simp only [find, if_pos hk, Option.some.injEq, List.mem_cons, hnot, or_false]
      constructor
      · rintro rfl
        exact Prod.ext hk.symm rfl
      · intro h
        exact (congrArg Prod.snd h).symm
    · have hne : (k, v) ≠ p := fun h => hk (congrArg Prod.fst h).symm
      simp only [find, if_neg hk, List.mem_cons, hne, false_or]
      exact find_eq_some hrest

/-- A lookup succeeds exactly on the entries. -/
theorem get?_eq_some {t : Table κ α} {k : κ} {v : α} :
    t.get? k = some v ↔ (k, v) ∈ t.pairs := find_eq_some t.nodup

theorem mem_iff_get? {t : Table κ α} {k : κ} : k ∈ t ↔ ∃ v, t.get? k = some v := by
  show k ∈ t.pairs.map Prod.fst ↔ _
  simp only [List.mem_map, Prod.exists, exists_and_right, exists_eq_right, get?_eq_some]

theorem get?_eq_none {t : Table κ α} {k : κ} : t.get? k = none ↔ k ∉ t := by
  rw [mem_iff_get?]
  cases h : t.get? k <;> simp

theorem mem_of_get? {t : Table κ α} {k : κ} {v : α} (h : t.get? k = some v) : k ∈ t :=
  mem_iff_get?.mpr ⟨v, h⟩

theorem get?_of_mem_pairs {t : Table κ α} {p : κ × α} (h : p ∈ t.pairs) :
    t.get? p.1 = some p.2 := get?_eq_some.mpr h

@[simp] theorem get?_empty (k : κ) : (empty : Table κ α).get? k = none := rfl

theorem find_map (f : κ → α → β) (k : κ) (l : List (κ × α)) :
    find k (l.map fun p => (p.1, f p.1 p.2)) = (find k l).map (f k) := by
  induction l with
  | nil => rfl
  | cons p rest ih =>
    by_cases hk : p.1 = k
    · simp [find, hk]
    · simp [find, hk, ih]

@[simp] theorem get?_mapVal (t : Table κ α) (f : κ → α → β) (k : κ) :
    (t.mapVal f).get? k = (t.get? k).map (f k) := find_map f k t.pairs

end Lookup

/-! ## Changing one entry -/

section Update

variable [DecidableEq κ]

/-- Rewrite the value of `k`; no effect if `k` is absent. -/
def modify (t : Table κ α) (k : κ) (f : α → α) : Table κ α :=
  t.mapVal fun k' v => if k' = k then f v else v

/-- `t[k] = nil`. -/
def erase (t : Table κ α) (k : κ) : Table κ α :=
  ⟨t.pairs.filter fun p => p.1 ≠ k,
    (List.filter_sublist.map Prod.fst).nodup t.nodup⟩

/-- `t[k] = v`. -/
def set (t : Table κ α) (k : κ) (v : α) : Table κ α :=
  if h : k ∈ t then t.modify k fun _ => v
  else ⟨t.pairs ++ [(k, v)], by
    rw [List.map_append, List.nodup_append]
    exact ⟨t.nodup, by simp, fun a ha b hb hab => h (by
      simp only [List.map_cons, List.map_nil, List.mem_singleton] at hb
      exact hb ▸ hab ▸ ha)⟩⟩

theorem get?_modify (t : Table κ α) (k k' : κ) (f : α → α) :
    (t.modify k f).get? k' = if k' = k then (t.get? k').map f else t.get? k' := by
  rw [modify, get?_mapVal]
  by_cases hk : k' = k
  · simp [hk]
  · simp [hk]

@[simp] theorem get?_modify_self (t : Table κ α) (k : κ) (f : α → α) :
    (t.modify k f).get? k = (t.get? k).map f := by rw [get?_modify, if_pos rfl]

theorem get?_modify_ne (t : Table κ α) {k k' : κ} (f : α → α) (h : k' ≠ k) :
    (t.modify k f).get? k' = t.get? k' := by rw [get?_modify, if_neg h]

@[simp] theorem mem_modify {t : Table κ α} {k k' : κ} {f : α → α} :
    k' ∈ t.modify k f ↔ k' ∈ t := mem_mapVal

@[simp] theorem size_modify (t : Table κ α) (k : κ) (f : α → α) : (t.modify k f).size = t.size :=
  size_mapVal t _

theorem find_append_ne {k k' : κ} (v : α) (l : List (κ × α)) (h : k' ≠ k) :
    find k' (l ++ [(k, v)]) = find k' l := by
  induction l with
  | nil => simp [find, Ne.symm h]
  | cons p rest ih =>
    by_cases hk : p.1 = k'
    · simp [find, hk]
    · simp [find, hk, ih]

theorem get?_set (t : Table κ α) (k k' : κ) (v : α) :
    (t.set k v).get? k' = if k' = k then some v else t.get? k' := by
  unfold set
  split
  · rename_i hmem
    rw [get?_modify]
    by_cases hk : k' = k
    · obtain ⟨w, hw⟩ := mem_iff_get?.mp hmem
      simp [hk, hw]
    · simp [hk]
  · by_cases hk : k' = k
    · subst hk
      rw [if_pos rfl, get?_eq_some]
      simp
    · rw [if_neg hk]
      exact find_append_ne v t.pairs hk

@[simp] theorem get?_set_self (t : Table κ α) (k : κ) (v : α) : (t.set k v).get? k = some v := by
  rw [get?_set, if_pos rfl]

theorem get?_set_ne (t : Table κ α) {k k' : κ} (v : α) (h : k' ≠ k) :
    (t.set k v).get? k' = t.get? k' := by rw [get?_set, if_neg h]

@[simp] theorem mem_set {t : Table κ α} {k k' : κ} {v : α} :
    k' ∈ t.set k v ↔ k' = k ∨ k' ∈ t := by
  rw [mem_iff_get?, mem_iff_get?]
  by_cases hk : k' = k
  · simp [hk]
  · simp [get?_set_ne t v hk, hk]

theorem size_set (t : Table κ α) (k : κ) (v : α) :
    (t.set k v).size = if k ∈ t then t.size else t.size + 1 := by
  unfold set
  by_cases h : k ∈ t
  · rw [dif_pos h, if_pos h, size_modify]
  · rw [dif_neg h, if_neg h]
    simp [size]

theorem find_filter_ne {k k' : κ} (l : List (κ × α)) :
    find k' (l.filter fun p => p.1 ≠ k) = if k' = k then none else find k' l := by
  induction l with
  | nil => simp [find]
  | cons p rest ih =>
    by_cases hp : p.1 = k
    · rw [List.filter_cons_of_neg (by simpa using hp), ih]
      by_cases hk : k' = k
      · simp [hk]
      · simp [find, hk, hp, Ne.symm hk]
    · rw [List.filter_cons_of_pos (by simpa using hp)]
      by_cases hk : k' = k
      · subst hk
        simp only [find, if_neg hp, ih, if_pos]
      · simp only [find, ih, if_neg hk]

theorem get?_erase (t : Table κ α) (k k' : κ) :
    (t.erase k).get? k' = if k' = k then none else t.get? k' := find_filter_ne t.pairs

@[simp] theorem get?_erase_self (t : Table κ α) (k : κ) : (t.erase k).get? k = none := by
  rw [get?_erase, if_pos rfl]

theorem get?_erase_ne (t : Table κ α) {k k' : κ} (h : k' ≠ k) :
    (t.erase k).get? k' = t.get? k' := by rw [get?_erase, if_neg h]

@[simp] theorem mem_erase {t : Table κ α} {k k' : κ} : k' ∈ t.erase k ↔ k' ≠ k ∧ k' ∈ t := by
  rw [mem_iff_get?, mem_iff_get?]
  by_cases hk : k' = k
  · simp [hk]
  · simp [get?_erase_ne t hk, hk]

theorem not_mem_erase_self (t : Table κ α) (k : κ) : k ∉ t.erase k :=
  fun hmem => (mem_erase.mp hmem).1 rfl

/-- Removing an absent key changes nothing. -/
theorem erase_of_not_mem {t : Table κ α} {k : κ} (h : k ∉ t) : t.erase k = t := by
  have hpairs : (t.erase k).pairs = t.pairs := by
    refine List.filter_eq_self.mpr fun p hp => ?_
    simp only [ne_eq, decide_not, Bool.not_eq_eq_eq_not, Bool.not_true, decide_eq_false_iff_not]
    rintro rfl
    exact h (mem_of_mem_pairs hp)
  cases t
  simpa [erase] using hpairs

private theorem length_filter_ne {k : κ} : ∀ {l : List (κ × α)}, (l.map Prod.fst).Nodup →
    k ∈ l.map Prod.fst → (l.filter fun p => p.1 ≠ k).length + 1 = l.length
  | [], _, h => absurd h (List.not_mem_nil)
  | p :: rest, hnd, h => by
    rw [List.map_cons, List.nodup_cons] at hnd
    by_cases hp : p.1 = k
    · rw [List.filter_cons_of_neg (by simpa using hp), List.length_cons]
      congr 2
      refine List.filter_eq_self.mpr fun q hq => ?_
      have hne : q.1 ≠ k := fun he => hnd.1 (hp ▸ he ▸ List.mem_map_of_mem hq)
      simpa using hne
    · have hrest : k ∈ rest.map Prod.fst := by
        simpa [Ne.symm hp] using h
      rw [List.filter_cons_of_pos (by simpa using hp), List.length_cons, List.length_cons,
        length_filter_ne hnd.2 hrest]

theorem size_erase_of_mem {t : Table κ α} {k : κ} (h : k ∈ t) :
    (t.erase k).size + 1 = t.size := length_filter_ne t.nodup h

theorem mapVal_congr {t : Table κ α} {f g : κ → α → β}
    (h : ∀ k v, t.get? k = some v → f k v = g k v) : t.mapVal f = t.mapVal g := by
  have hpairs : (t.mapVal f).pairs = (t.mapVal g).pairs :=
    List.map_congr_left fun p hp => by rw [h p.1 p.2 (get?_of_mem_pairs hp)]
  cases hf : t.mapVal f
  cases hg : t.mapVal g
  simp_all

theorem mapVal_eq_self {t : Table κ α} {f : κ → α → α}
    (h : ∀ k v, t.get? k = some v → f k v = v) : t.mapVal f = t := by
  rw [mapVal_congr (g := fun _ v => v) h]
  simp [mapVal]

theorem modify_mapVal (t : Table κ α) (f : κ → α → β) (k : κ) (g : β → β) :
    (t.mapVal f).modify k g = t.mapVal fun k' v => if k' = k then g (f k' v) else f k' v := by
  simp [modify, mapVal]

theorem modify_modify (t : Table κ α) (k : κ) (f g : α → α) :
    (t.modify k f).modify k g = t.modify k fun v => g (f v) := by
  show (t.mapVal _).modify k g = t.mapVal _
  rw [modify_mapVal]
  refine mapVal_congr fun k' v _ => ?_
  by_cases hk : k' = k
  · simp [hk]
  · simp [hk]

/-! ## Entry by entry -/

/-- `t` has the keys of `s` in the same order, and each of its values is related
to the value `s` has there. -/
structure Updated (R : κ → α → α → Prop) (s t : Table κ α) : Prop where
  keys : t.keys = s.keys
  rel : ∀ k v w, s.get? k = some v → t.get? k = some w → R k v w

namespace Updated

variable {R S : κ → α → α → Prop} {s t u : Table κ α}

theorem refl (h : ∀ k v, s.get? k = some v → R k v v) : Updated R s s :=
  ⟨rfl, fun k v w hv hw => by rw [hv] at hw; cases hw; exact h k v hv⟩

theorem mem (h : Updated R s t) {k : κ} : k ∈ t ↔ k ∈ s := by
  show k ∈ t.keys ↔ k ∈ s.keys
  rw [h.keys]

theorem size (h : Updated R s t) : t.size = s.size := by
  rw [size_eq_length_keys, size_eq_length_keys, h.keys]

/-- Every entry of the old table has its successor. -/
theorem get?_of_old (h : Updated R s t) {k : κ} {v : α} (hv : s.get? k = some v) :
    ∃ w, t.get? k = some w ∧ R k v w := by
  obtain ⟨w, hw⟩ := mem_iff_get?.mp (h.mem.mpr (mem_of_get? hv))
  exact ⟨w, hw, h.rel k v w hv hw⟩

/-- Every entry of the new table has its predecessor. -/
theorem get?_of_new (h : Updated R s t) {k : κ} {w : α} (hw : t.get? k = some w) :
    ∃ v, s.get? k = some v ∧ R k v w := by
  obtain ⟨v, hv⟩ := mem_iff_get?.mp (h.mem.mp (mem_of_get? hw))
  exact ⟨v, hv, h.rel k v w hv hw⟩

theorem mono (h : Updated R s t) (hRS : ∀ k v w, R k v w → S k v w) : Updated S s t :=
  ⟨h.keys, fun k v w hv hw => hRS k v w (h.rel k v w hv hw)⟩

theorem trans {T : κ → α → α → Prop} (h : Updated R s t) (h' : Updated S t u)
    (hT : ∀ k x y z, R k x y → S k y z → T k x z) : Updated T s u := by
  refine ⟨h'.keys.trans h.keys, fun k x z hx hz => ?_⟩
  obtain ⟨y, hy, hR⟩ := h.get?_of_old hx
  exact hT k x y z hR (h'.rel k y z hy hz)

end Updated

theorem updated_mapVal {R : κ → α → α → Prop} {s : Table κ α} {f : κ → α → α}
    (h : ∀ k v, s.get? k = some v → R k v (f k v)) : Updated R s (s.mapVal f) := by
  refine ⟨keys_mapVal s f, fun k v w hv hw => ?_⟩
  rw [get?_mapVal, hv] at hw
  cases hw
  exact h k v hv

theorem updated_modify {R : κ → α → α → Prop} {s : Table κ α} {k : κ} {f : α → α}
    (hrefl : ∀ k' v, R k' v v) (h : ∀ v, s.get? k = some v → R k v (f v)) :
    Updated R s (s.modify k f) := by
  refine updated_mapVal fun k' v hv => ?_
  by_cases hk : k' = k
  · subst hk
    rw [if_pos rfl]
    exact h v hv
  · rw [if_neg hk]
    exact hrefl k' v

/-! ## Loops that visit each entry once -/

/-- Where a loop over the entries stands: `k` was not visited before, and has
the value of the round. -/
theorem not_visited {t : Table κ α} {done rest : List (κ × α)} {p : κ × α}
    (h : t.pairs = done ++ p :: rest) :
    p.1 ∉ done.map Prod.fst ∧ t.get? p.1 = some p.2 := by
  have hnd := t.nodup
  rw [h, List.map_append, List.map_cons, List.nodup_append] at hnd
  refine ⟨fun hmem => hnd.2.2 _ hmem _ List.mem_cons_self rfl, ?_⟩
  exact get?_of_mem_pairs (by rw [h]; simp)

/-- Visited entries are related by `P` to what they were, the others are as they
were. -/
def Visited (P : κ → α → α → Prop) (done : List (κ × α)) (k : κ) (v w : α) : Prop :=
  if k ∈ done.map Prod.fst then P k v w else w = v

theorem updated_visited_nil (P : κ → α → α → Prop) (t : Table κ α) :
    Updated (Visited P []) t t :=
  Updated.refl fun _ _ _ => (if_neg List.not_mem_nil).mpr rfl

/-- One round that changes its own entry only. -/
theorem Updated.visit {P : κ → α → α → Prop} {s t : Table κ α} {done rest : List (κ × α)}
    {p : κ × α} (hsplit : s.pairs = done ++ p :: rest) (h : Updated (Visited P done) s t)
    {f : α → α} (hP : P p.1 p.2 (f p.2)) :
    Updated (Visited P (done ++ [p])) s (t.modify p.1 f) := by
  obtain ⟨hnew, hget⟩ := not_visited hsplit
  refine ⟨(keys_mapVal _ _).trans h.keys, fun k v w hv hw => ?_⟩
  have hmem : k ∈ (done ++ [p]).map Prod.fst ↔ k ∈ done.map Prod.fst ∨ k = p.1 := by simp
  unfold Visited
  by_cases hk : k = p.1
  · subst hk
    rw [if_pos (hmem.mpr (.inr rfl))]
    obtain ⟨x, hx, hvx⟩ := h.get?_of_old hv
    rw [get?_modify_self, hx] at hw
    rw [hget] at hv
    cases hv
    cases hw
    rw [(if_neg hnew).mp hvx]
    exact hP
  · rw [get?_modify_ne _ _ hk] at hw
    have hvw := h.rel k v w hv hw
    by_cases hd : k ∈ done.map Prod.fst
    · rw [if_pos (hmem.mpr (.inl hd))]
      exact (if_pos hd).mp hvw
    · rw [if_neg fun hm => (hmem.mp hm).elim hd hk]
      exact (if_neg hd).mp hvw

/-- A round that changes nothing. -/
theorem Updated.visit_same {P : κ → α → α → Prop} {s t : Table κ α} {done rest : List (κ × α)}
    {p : κ × α} (hsplit : s.pairs = done ++ p :: rest) (h : Updated (Visited P done) s t)
    (hP : P p.1 p.2 p.2) : Updated (Visited P (done ++ [p])) s t := by
  have hid : t.modify p.1 id = t := mapVal_eq_self fun k v _ => by simp
  have := h.visit hsplit (f := id) hP
  rwa [hid] at this

/-- After the last round every entry was visited. -/
theorem Updated.visited_all {P : κ → α → α → Prop} {s t : Table κ α}
    (h : Updated (Visited P s.pairs) s t) : Updated P s t :=
  ⟨h.keys, fun k v w hv hw => (if_pos (mem_of_get? hv)).mp (h.rel k v w hv hw)⟩

end Update

/-! ## Sums -/

section Sums

variable {M : Type*} [AddCommMonoid M]

@[simp] theorem sum_empty (f : κ → α → M) : (empty : Table κ α).sum f = 0 := rfl

@[simp] theorem sum_mapVal (t : Table κ α) (g : κ → α → β) (f : κ → β → M) :
    (t.mapVal g).sum f = t.sum fun k v => f k (g k v) := by
  simp [sum, mapVal, Function.comp_def]

theorem sum_add (t : Table κ α) (f g : κ → α → M) :
    (t.sum fun k v => f k v + g k v) = t.sum f + t.sum g := List.sum_map_add

theorem sum_zero (t : Table κ α) : (t.sum fun _ _ => (0 : M)) = 0 := by
  unfold sum
  exact List.sum_eq_zero fun x hx => by
    obtain ⟨_, _, rfl⟩ := List.mem_map.mp hx
    rfl

variable [DecidableEq κ]

theorem sum_congr {t : Table κ α} {f g : κ → α → M}
    (h : ∀ k v, t.get? k = some v → f k v = g k v) : t.sum f = t.sum g := by
  unfold sum
  congr 1
  exact List.map_congr_left fun p hp => h p.1 p.2 (get?_of_mem_pairs hp)

private theorem sum_single_list {k : κ} {v : α} {f : κ → α → M} :
    ∀ {l : List (κ × α)}, (l.map Prod.fst).Nodup → (k, v) ∈ l →
    (l.map fun p => if p.1 = k then f p.1 p.2 else 0).sum = f k v
  | [], _, h => absurd h (List.not_mem_nil)
  | p :: rest, hnd, h => by
    rw [List.map_cons, List.nodup_cons] at hnd
    rw [List.map_cons, List.sum_cons]
    by_cases hp : p.1 = k
    · have hzero : (rest.map fun p => if p.1 = k then f p.1 p.2 else 0).sum = 0 := by
        refine List.sum_eq_zero fun x hx => ?_
        obtain ⟨q, hq, rfl⟩ := List.mem_map.mp hx
        have hne : q.1 ≠ k := fun he => hnd.1 (hp ▸ he ▸ List.mem_map_of_mem hq)
        exact if_neg hne
      have hv : p = (k, v) := by
        rcases List.mem_cons.mp h with he | hm
        · exact he.symm
        · exact absurd (hp ▸ List.mem_map_of_mem (f := Prod.fst) hm) hnd.1
      rw [if_pos hp, hzero, add_zero, hv]
    · have hm : (k, v) ∈ rest := by
        rcases List.mem_cons.mp h with he | hm
        · exact absurd (congrArg Prod.fst he).symm hp
        · exact hm
      rw [if_neg hp, zero_add, sum_single_list hnd.2 hm]

/-- The sum of one key's contribution. -/
theorem sum_single {t : Table κ α} {k : κ} {v : α} (h : t.get? k = some v) (f : κ → α → M) :
    (t.sum fun k' v' => if k' = k then f k' v' else 0) = f k v :=
  sum_single_list t.nodup (get?_eq_some.mp h)

/-- A sum splits into one key's contribution and the others'. -/
theorem sum_split {t : Table κ α} {k : κ} {v : α} (h : t.get? k = some v) (f : κ → α → M) :
    t.sum f = f k v + t.sum fun k' v' => if k' = k then 0 else f k' v' := by
  rw [← sum_single h f, ← sum_add]
  refine sum_congr fun k' v' _ => ?_
  by_cases hk : k' = k
  · simp [hk]
  · simp [hk]

/-- Changing one entry changes the sum by that entry's difference. -/
theorem sum_modify {t : Table κ α} {k : κ} {v : α} (h : t.get? k = some v) (f : α → α)
    (g : κ → α → M) : (t.modify k f).sum g + g k v = t.sum g + g k (f v) := by
  have hk : (t.modify k f).get? k = some (f v) := by rw [get?_modify_self, h]; rfl
  have hrest : ((t.modify k f).sum fun k' v' => if k' = k then 0 else g k' v') =
      t.sum fun k' v' => if k' = k then 0 else g k' v' := by
    unfold modify
    rw [sum_mapVal]
    refine sum_congr fun k' v' _ => ?_
    by_cases hk' : k' = k
    · rw [if_pos hk', if_pos hk']
    · rw [if_neg hk', if_neg hk', if_neg hk']
  rw [sum_split hk, sum_split h, hrest]
  abel

/-- A sum over the entries is a sum over the keys. -/
theorem sum_eq_keys (t : Table κ α) (f : κ → α → M) :
    t.sum f = (t.keys.map fun k => ((t.get? k).map (f k)).getD 0).sum := by
  unfold sum keys
  rw [List.map_map]
  refine congrArg List.sum (List.map_congr_left fun p hp => ?_)
  show f p.1 p.2 = ((t.get? p.1).map (f p.1)).getD 0
  rw [get?_of_mem_pairs hp]
  rfl

/-- Tables with the same keys and equal contributions have equal sums. -/
theorem Updated.sum_eq {R : κ → α → α → Prop} {s t : Table κ α} (h : Updated R s t)
    {f f' : κ → α → M} (hf : ∀ k v w, s.get? k = some v → R k v w → f' k w = f k v) :
    t.sum f' = s.sum f := by
  rw [sum_eq_keys, sum_eq_keys, h.keys]
  refine congrArg List.sum (List.map_congr_left fun k hk => ?_)
  obtain ⟨v, hv⟩ := mem_iff_get?.mp (show k ∈ s from hk)
  obtain ⟨w, hw, hvw⟩ := h.get?_of_old hv
  rw [hv, hw]
  exact hf k v w hv hvw

end Sums

/-! ## Other traversal orders -/

namespace SameEntries

variable {s t : Table κ α}

theorem refl (t : Table κ α) : t.SameEntries t := List.Perm.refl _

theorem mem (h : s.SameEntries t) (k : κ) : k ∈ s ↔ k ∈ t := (h.map Prod.fst).mem_iff

theorem size (h : s.SameEntries t) : s.size = t.size := h.length_eq

theorem sum {M : Type*} [AddCommMonoid M] (h : s.SameEntries t) (f : κ → α → M) :
    s.sum f = t.sum f := (h.map _).sum_eq

theorem get? [DecidableEq κ] (h : s.SameEntries t) (k : κ) : s.get? k = t.get? k := by
  refine Option.ext fun v => ?_
  rw [get?_eq_some, get?_eq_some]
  exact h.mem_iff

end SameEntries

end Table

end DnServer.Lib
