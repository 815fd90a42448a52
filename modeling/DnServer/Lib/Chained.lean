import Mathlib

/-!
# Chained hash tables

A table has a chain of nodes for each remainder of the hashes, and a node keeps
the hash of its key, so that most comparisons of keys are saved. New nodes come in
front of their chain, and no node ever leaves it. The comparison of keys need be
right only for those keys that are used.
-/

namespace DnServer.Lib

/-- How keys are hashed and compared, in a table of `size` chains. -/
structure Hashing (κ : Type*) where
  hash : κ → ℕ
  size : ℕ
  same : κ → κ → Bool

/-- A node of a chain. -/
structure HashNode (κ α : Type*) where
  key : κ
  hash : ℕ
  value : α

/-- The chains. -/
abbrev Chains (κ α : Type*) := ℕ → List (HashNode κ α)

namespace Hashing

variable {κ α : Type*} (H : Hashing κ)

def chain (k : κ) : ℕ := H.hash k % H.size

/-- The comparison of a node with a key. -/
def hits (k : κ) (n : HashNode κ α) : Bool := n.hash == H.hash k && H.same n.key k

def search (t : Chains κ α) (k : κ) : Option (HashNode κ α) :=
  (t (H.chain k)).find? (H.hits k)

def insert (t : Chains κ α) (k : κ) (a : α) : Chains κ α :=
  Function.update t (H.chain k) (⟨k, H.hash k, a⟩ :: t (H.chain k))

/-- The first node that a search hits gets a new value. -/
def assignIn (k : κ) (f : α → α) : List (HashNode κ α) → List (HashNode κ α)
  | [] => []
  | n :: l => if H.hits k n then { n with value := f n.value } :: l else n :: assignIn k f l

def assign (t : Chains κ α) (k : κ) (f : α → α) : Chains κ α :=
  Function.update t (H.chain k) (H.assignIn k f (t (H.chain k)))

/-- The node of the key is made if there is none, and its value changed. -/
def upsert (t : Chains κ α) (k : κ) (fresh : α) (f : α → α) : Chains κ α :=
  H.assign (if (H.search t k).isSome then t else H.insert t k fresh) k f

/-- The value that a search finds. -/
def lookup (t : Chains κ α) (k : κ) : Option α := (H.search t k).map HashNode.value

/-- Each node is in the chain of its key, with the hash of its key, and no key is in a chain
twice. -/
structure Sound (P : κ → Prop) (t : Chains κ α) : Prop where
  key : ∀ b, ∀ n ∈ t b, P n.key
  hash : ∀ b, ∀ n ∈ t b, n.hash = H.hash n.key
  chain : ∀ b, ∀ n ∈ t b, H.chain n.key = b
  nodup : ∀ b, ((t b).map HashNode.key).Nodup

section

variable {H} {P : κ → Prop} {t : Chains κ α} {l : List (HashNode κ α)} {k k' : κ} {a : α}
  {f : α → α} {n : HashNode κ α}

theorem sound_empty : H.Sound P (fun _ => ([] : List (HashNode κ α))) :=
  ⟨fun _ _ h => (List.not_mem_nil h).elim, fun _ _ h => (List.not_mem_nil h).elim,
    fun _ _ h => (List.not_mem_nil h).elim, fun _ => List.nodup_nil⟩

/-- The comparison tells used keys apart. -/
def Tells (H : Hashing κ) (P : κ → Prop) : Prop := ∀ a b, P a → P b → (H.same a b = true ↔ a = b)

/-- A node of the table is hit just by its key. -/
theorem Sound.hits_iff (h : H.Sound P t) (hsame : H.Tells P) {b : ℕ} (hn : n ∈ t b) (hk : P k) :
    H.hits k n = true ↔ n.key = k := by
  unfold hits
  rw [Bool.and_eq_true, beq_iff_eq, h.hash b n hn, hsame _ _ (h.key b n hn) hk]
  exact ⟨fun hboth => hboth.2, fun heq => ⟨by rw [heq], heq⟩⟩

theorem Sound.lookup_eq_some (h : H.Sound P t) (hsame : H.Tells P) (hk : P k) :
    H.lookup t k = some a ↔ ∃ n ∈ t (H.chain k), n.key = k ∧ n.value = a := by
  unfold lookup search
  rw [Option.map_eq_some_iff]
  constructor
  · rintro ⟨n, hfind, rfl⟩
    have hmem := List.mem_of_find?_eq_some hfind
    exact ⟨n, hmem, (h.hits_iff hsame hmem hk).mp (List.find?_some hfind), rfl⟩
  · rintro ⟨n, hn, hkey, rfl⟩
    have hhit := (h.hits_iff hsame hn hk).mpr hkey
    cases hfind : (t (H.chain k)).find? (H.hits k) with
    | none => exact absurd hhit (List.find?_eq_none.mp hfind n hn)
    | some n' =>
      have hmem := List.mem_of_find?_eq_some hfind
      have hkey' := (h.hits_iff hsame hmem hk).mp (List.find?_some hfind)
      refine ⟨n', rfl, ?_⟩
      rw [List.inj_on_of_nodup_map (h.nodup (H.chain k)) hmem hn (hkey'.trans hkey.symm)]

theorem lookup_isSome : (H.lookup t k).isSome = (H.search t k).isSome := Option.isSome_map ..

theorem Sound.insert (h : H.Sound P t) (hsame : H.Tells P) (hk : P k)
    (hnone : H.search t k = none) (a : α) : H.Sound P (H.insert t k a) := by
  have hfresh : ∀ n ∈ t (H.chain k), n.key ≠ k := by
    intro n hn hkey
    exact List.find?_eq_none.mp hnone n hn ((h.hits_iff hsame hn hk).mpr hkey)
  have hcases : ∀ b, ∀ n ∈ H.insert t k a b,
      (n = ⟨k, H.hash k, a⟩ ∧ b = H.chain k) ∨ n ∈ t b := by
    intro b n hn
    unfold Hashing.insert at hn
    by_cases hb : b = H.chain k
    · subst hb
      rw [Function.update_self] at hn
      exact (List.mem_cons.mp hn).imp_left fun heq => ⟨heq, rfl⟩
    · rw [Function.update_of_ne hb] at hn
      exact .inr hn
  refine ⟨fun b n hn => ?_, fun b n hn => ?_, fun b n hn => ?_, fun b => ?_⟩
  · rcases hcases b n hn with ⟨rfl, -⟩ | hold
    · exact hk
    · exact h.key b n hold
  · rcases hcases b n hn with ⟨rfl, -⟩ | hold
    · rfl
    · exact h.hash b n hold
  · rcases hcases b n hn with ⟨rfl, rfl⟩ | hold
    · rfl
    · exact h.chain b n hold
  · unfold Hashing.insert
    by_cases hb : b = H.chain k
    · subst hb
      rw [Function.update_self, List.map_cons, List.nodup_cons]
      refine ⟨?_, h.nodup _⟩
      rintro hmem
      obtain ⟨n, hn, hkey⟩ := List.mem_map.mp hmem
      exact hfresh n hn hkey
    · rw [Function.update_of_ne hb]
      exact h.nodup b

theorem map_key_assignIn : (H.assignIn k f l).map HashNode.key = l.map HashNode.key := by
  induction l with
  | nil => rfl
  | cons n l ih =>
    unfold assignIn
    split
    · rfl
    · rw [List.map_cons, List.map_cons, ih]

/-- A node after an assignment has the key and the hash of one before. -/
theorem mem_assignIn (h : n ∈ H.assignIn k f l) : ∃ n' ∈ l, n.key = n'.key ∧ n.hash = n'.hash := by
  induction l with
  | nil => cases h
  | cons n₀ l ih =>
    unfold assignIn at h
    split at h
    · rcases List.mem_cons.mp h with rfl | h
      · exact ⟨n₀, List.mem_cons_self, rfl, rfl⟩
      · exact ⟨n, List.mem_cons_of_mem _ h, rfl, rfl⟩
    · rcases List.mem_cons.mp h with rfl | h
      · exact ⟨n, List.mem_cons_self, rfl, rfl⟩
      · obtain ⟨n', hn', heq⟩ := ih h
        exact ⟨n', List.mem_cons_of_mem _ hn', heq⟩

theorem find_assignIn : (H.assignIn k f l).find? (H.hits k) =
    (l.find? (H.hits k)).map fun n => { n with value := f n.value } := by
  induction l with
  | nil => rfl
  | cons n l ih =>
    unfold assignIn
    by_cases hn : H.hits k n = true
    · have hn' : H.hits k ({ n with value := f n.value } : HashNode κ α) = true := hn
      rw [if_pos hn, List.find?_cons_of_pos hn, List.find?_cons_of_pos hn']
      rfl
    · rw [if_neg hn, List.find?_cons_of_neg hn, List.find?_cons_of_neg hn, ih]

/-- A search for another key is not touched. -/
theorem find_assignIn_other (hother : ∀ n ∈ l, H.hits k n = true → H.hits k' n = false) :
    ((H.assignIn k f l).find? (H.hits k')).map HashNode.value =
      (l.find? (H.hits k')).map HashNode.value := by
  induction l with
  | nil => rfl
  | cons n l ih =>
    unfold assignIn
    by_cases hn : H.hits k n = true
    · have hmiss : ¬H.hits k' n = true := by
        rw [hother n List.mem_cons_self hn]
        exact Bool.false_ne_true
      have hmiss' : ¬H.hits k' ({ n with value := f n.value } : HashNode κ α) = true := hmiss
      rw [if_pos hn, List.find?_cons_of_neg hmiss, List.find?_cons_of_neg hmiss']
    · rw [if_neg hn]
      by_cases hn' : H.hits k' n = true
      · rw [List.find?_cons_of_pos hn', List.find?_cons_of_pos hn']
      · rw [List.find?_cons_of_neg hn', List.find?_cons_of_neg hn',
          ih fun x hx => hother x (List.mem_cons_of_mem _ hx)]

theorem Sound.assign (h : H.Sound P t) (k : κ) (f : α → α) : H.Sound P (H.assign t k f) := by
  have hcases : ∀ b, ∀ n ∈ H.assign t k f b, ∃ n' ∈ t b, n.key = n'.key ∧ n.hash = n'.hash := by
    intro b n hn
    unfold Hashing.assign at hn
    by_cases hb : b = H.chain k
    · subst hb
      rw [Function.update_self] at hn
      exact mem_assignIn hn
    · rw [Function.update_of_ne hb] at hn
      exact ⟨n, hn, rfl, rfl⟩
  refine ⟨fun b n hn => ?_, fun b n hn => ?_, fun b n hn => ?_, fun b => ?_⟩
  · obtain ⟨n', hn', hkey, -⟩ := hcases b n hn
    rw [hkey]
    exact h.key b n' hn'
  · obtain ⟨n', hn', hkey, hhash⟩ := hcases b n hn
    rw [hhash, hkey]
    exact h.hash b n' hn'
  · obtain ⟨n', hn', hkey, -⟩ := hcases b n hn
    rw [hkey]
    exact h.chain b n' hn'
  · unfold Hashing.assign
    by_cases hb : b = H.chain k
    · subst hb
      rw [Function.update_self, map_key_assignIn]
      exact h.nodup _
    · rw [Function.update_of_ne hb]
      exact h.nodup b

theorem Sound.lookup_assign (h : H.Sound P t) (hsame : H.Tells P) (hk : P k) (hk' : P k')
    (f : α → α) : (H.lookup (H.assign t k f) k = (H.lookup t k).map f) ∧
      (k' ≠ k → H.lookup (H.assign t k f) k' = H.lookup t k') := by
  unfold lookup search Hashing.assign
  constructor
  · rw [Function.update_self, find_assignIn, Option.map_map, Option.map_map]
    rfl
  · intro hne
    by_cases hb : H.chain k' = H.chain k
    · rw [hb, Function.update_self]
      refine find_assignIn_other fun n hn hhit => ?_
      have hkey := (h.hits_iff hsame hn hk).mp hhit
      by_contra hhit'
      rw [Bool.not_eq_false] at hhit'
      exact hne (((h.hits_iff hsame hn hk').mp hhit').symm.trans hkey)
    · rw [Function.update_of_ne hb]

theorem Sound.lookup_insert (h : H.Sound P t) (hsame : H.Tells P) (hk : P k) (hk' : P k')
    (hnone : H.search t k = none) (a : α) : H.lookup (H.insert t k a) k = some a ∧
      (k' ≠ k → H.lookup (H.insert t k a) k' = H.lookup t k') := by
  have hsound := h.insert hsame hk hnone a
  have hself : (⟨k, H.hash k, a⟩ : HashNode κ α) ∈ H.insert t k a (H.chain k) := by
    unfold Hashing.insert
    rw [Function.update_self]
    exact List.mem_cons_self
  refine ⟨(hsound.lookup_eq_some hsame hk).mpr ⟨_, hself, rfl, rfl⟩, fun hne => ?_⟩
  unfold lookup search Hashing.insert
  by_cases hb : H.chain k' = H.chain k
  · have hmiss : ¬H.hits k' (⟨k, H.hash k, a⟩ : HashNode κ α) = true := fun hhit =>
      hne ((hsound.hits_iff hsame hself hk').mp hhit).symm
    rw [hb, Function.update_self, List.find?_cons_of_neg hmiss]
  · rw [Function.update_of_ne hb]

/-- The table after the value of a key was changed. -/
theorem Sound.upsert (h : H.Sound P t) (hsame : H.Tells P) (hk : P k) (fresh : α) (f : α → α) :
    H.Sound P (H.upsert t k fresh f) := by
  unfold Hashing.upsert
  by_cases hfound : (H.search t k).isSome
  · rw [if_pos hfound]
    exact h.assign k f
  · rw [if_neg hfound]
    exact (h.insert hsame hk (Option.not_isSome_iff_eq_none.mp hfound) fresh).assign k f

theorem Sound.lookup_upsert [DecidableEq κ] (h : H.Sound P t) (hsame : H.Tells P) (hk : P k)
    (hk' : P k') (fresh : α) (f : α → α) : H.lookup (H.upsert t k fresh f) k' =
      if k' = k then some (f ((H.lookup t k).getD fresh)) else H.lookup t k' := by
  unfold Hashing.upsert
  by_cases hfound : (H.search t k).isSome
  · rw [if_pos hfound]
    obtain ⟨hself, hother⟩ := h.lookup_assign hsame hk hk' f
    by_cases hne : k' = k
    · subst hne
      obtain ⟨a, ha⟩ := Option.isSome_iff_exists.mp (lookup_isSome.trans hfound)
      rw [hself, if_pos rfl, ha]
      rfl
    · rw [if_neg hne]
      exact hother hne
  · rw [if_neg hfound]
    have hnone := Option.not_isSome_iff_eq_none.mp hfound
    obtain ⟨hinsert, hinsert'⟩ := h.lookup_insert hsame hk hk' hnone fresh
    obtain ⟨hself, hother⟩ := (h.insert hsame hk hnone fresh).lookup_assign hsame hk hk' f
    by_cases hne : k' = k
    · subst hne
      have hlookup : H.lookup t k' = none := by
        unfold lookup
        rw [hnone]
        rfl
      rw [hself, hinsert, if_pos rfl, hlookup]
      rfl
    · rw [if_neg hne, hother hne, hinsert' hne]

end

end Hashing

end DnServer.Lib
