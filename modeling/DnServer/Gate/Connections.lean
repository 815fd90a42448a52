import DnServer.Lib.Transition

/-!
# The connection table of the gate

`main.c`: every connection gets an id from a counter, and the id modulo the
table's size is its slot. Numbers whose slot is taken are skipped. The table
answers for an id just while the connection that got it is open.

* `connection_table`: `Sized` and `Linked` have every live id in the chain of its slot,
  once. A search from the counter meets a free slot within as many numbers as there are
  slots (`Linked.exists_free`), or runs out of numbers: `gen_id_overflow`.
-/

namespace DnServer.Gate

open DnServer.Lib

/-- `struct connection`; the pointer to it is its index in `map`. -/
structure Connection where
  agent : ℕ
  client : ℕ
  uid : ℤ
  deriving DecidableEq, Repr

/-- `struct gate`, as far as connections are concerned. -/
structure GateState where
  id_index : ℤ
  cap : ℕ
  max_connection : ℕ
  agent : ℕ → Option ℕ
  map : ℕ → Connection

def INT_MAX : ℤ := 2147483647

/-- What may go wrong when an id is made. -/
inductive Fault
  /-- A signed sum leaves the range of `int`. -/
  | overflow
  /-- `assert(0)`. -/
  | assertion
  deriving DecidableEq, Repr

namespace GateState

/-- The smallest power of two from `cap` on that is at least `max`, while it is an `int`. -/
def capFor (max : ℕ) : ℕ → ℕ → Option ℕ
  | 0, _ => none
  | n + 1, cap => if cap < max then capFor max n (cap * 2) else some cap

/-- `gate_init`; `none` when it fails or doubles `cap` beyond the range of `int`. -/
def gate_init (max : ℕ) : Option GateState :=
  if max = 0 then none
  else
    (capFor max 31 1).map fun cap =>
      { id_index := 0
        cap := cap
        max_connection := max
        agent := fun _ => none
        map := fun _ => ⟨0, 0, 0⟩ }

/-- `uid & (cap - 1)`. -/
def hash (g : GateState) (uid : ℤ) : ℕ :=
  (BitVec.ofInt 32 uid &&& BitVec.ofNat 32 (g.cap - 1)).toNat

/-- `_id_to_agent`. -/
def _id_to_agent (g : GateState) (uid : ℤ) : Option ℕ :=
  match g.agent (g.hash uid) with
  | some conn => if (g.map conn).uid = uid then some conn else none
  | none => none

/-- `_forward_agent`. -/
def _forward_agent (g : GateState) (id : ℤ) (agentaddr clientaddr : ℕ) : GateState :=
  match g._id_to_agent id with
  | some conn =>
    { g with
      map := Function.update g.map conn
        { g.map conn with agent := agentaddr, client := clientaddr } }
  | none => g

/-- The loop of `_gen_id`, `n` rounds before its end. -/
def search (g : GateState) (uid : ℤ) : ℕ → ℕ → Except Fault ℤ
  | 0, _ => .error .assertion
  | n + 1, i =>
    if uid + i > INT_MAX then .error .overflow
    else if g.agent (g.hash (uid + i)) = none then .ok (uid + i)
    else search g uid n (i + 1)

/-- The table with the id of a connection entered. -/
def enter (g : GateState) (connection_id : ℕ) (uid : ℤ) : GateState :=
  { g with
    id_index := uid
    agent := Function.update g.agent (g.hash uid) (some connection_id)
    map := Function.update g.map connection_id { g.map connection_id with uid := uid } }

/-- `_gen_id`. -/
def _gen_id (g : GateState) (connection_id : ℕ) : Except Fault (GateState × ℤ) :=
  (g.search (g.id_index + 1) g.cap 0).map fun uid => (g.enter connection_id uid, uid)

/-- `_remove_id`; `none` when its assertion fails. -/
def _remove_id (g : GateState) (uid : ℤ) : Option GateState :=
  match g.agent (g.hash uid) with
  | some conn =>
    if (g.map conn).uid = uid then
      some { g with
        agent := Function.update g.agent (g.hash uid) none
        map := Function.update g.map conn { g.map conn with uid := 0, agent := 0 } }
    else none
  | none => some g

end GateState

/-! ## Opens and closes -/

/-- What happens to a connection of the pool. -/
inductive ConnEvent
  /-- The first bytes of a connection: `_cb` finds no id for it. -/
  | opened (connection_id : ℕ)
  /-- `mread_closed` on a connection with an id. -/
  | closed (connection_id : ℕ)
  | forward (id : ℤ) (agentaddr clientaddr : ℕ)
  deriving DecidableEq, Repr

/-- An id is issued. -/
def ConnEvent.isOpened : ConnEvent → Bool
  | .opened _ => true
  | _ => false

namespace GateState

/-- `_cb`, as far as the table is concerned. -/
def exec (g : GateState) : ConnEvent → Option GateState
  | .opened c =>
    if c < g.max_connection ∧ (g.map c).uid = 0 then (g._gen_id c).toOption.map Prod.fst else none
  | .closed c =>
    if c < g.max_connection ∧ (g.map c).uid ≠ 0 then g._remove_id (g.map c).uid else none
  | .forward id agentaddr clientaddr => some (g._forward_agent id agentaddr clientaddr)

/-- The gate for `max` connections. -/
def system (max : ℕ) : TSys GateState ConnEvent where
  init g := gate_init max = some g
  step g e g' := g.exec e = some g'

/-- The ids that are live, each with the connection that was opened under it. -/
def note (g : GateState) (e : ConnEvent) (g' : GateState) (live : ℤ → Option ℕ) : ℤ → Option ℕ :=
  match e with
  | .opened c => Function.update live (g'.map c).uid (some c)
  | .closed c => Function.update live (g.map c).uid none
  | .forward _ _ _ => live

/-- The gate together with its live ids. -/
def observed (max : ℕ) : TSys (GateState × (ℤ → Option ℕ)) ConnEvent :=
  (system max).observe (fun _ _ => none) note

/-! ## Slots -/

/-- A size of the table that `gate_init` can choose. -/
structure Sized (g : GateState) : Prop where
  pow : ∃ k, k ≤ 30 ∧ g.cap = 2 ^ k
  max_le : g.max_connection ≤ g.cap

theorem capFor_pow {max n k cap : ℕ} (h : capFor max n (2 ^ k) = some cap) :
    max ≤ cap ∧ ∃ j, j < k + n ∧ cap = 2 ^ j := by
  induction n generalizing k with
  | zero => cases h
  | succ n ih =>
    unfold capFor at h
    split at h
    · rw [← pow_succ] at h
      obtain ⟨hle, j, hj, hcap⟩ := ih h
      exact ⟨hle, j, by omega, hcap⟩
    · rename_i hge
      obtain rfl := Option.some.inj h
      exact ⟨Nat.le_of_not_lt hge, k, by omega, rfl⟩

theorem Sized.of_init {max : ℕ} {g : GateState} (h : gate_init max = some g) : g.Sized := by
  unfold gate_init at h
  split at h
  · cases h
  · obtain ⟨cap, hcap, rfl⟩ := Option.map_eq_some_iff.mp h
    obtain ⟨hle, k, hk, hpow⟩ := capFor_pow (k := 0) hcap
    exact ⟨⟨k, by omega, hpow⟩, hle⟩

variable {g g' : GateState} {uid : ℤ} {c : ℕ}

/-- The low bits of an id are its remainder. -/
theorem Sized.hash_eq (hg : g.Sized) (h0 : 0 ≤ uid) (hu : uid ≤ INT_MAX) :
    (g.hash uid : ℤ) = uid % g.cap := by
  obtain ⟨k, hk, hcap⟩ := hg.pow
  obtain ⟨n, rfl⟩ := Int.eq_ofNat_of_zero_le h0
  have hn : n < 2 ^ 31 := by
    unfold INT_MAX at hu
    omega
  have hle : 2 ^ k ≤ 2 ^ 30 := Nat.pow_le_pow_right (by omega) hk
  have hmask : 2 ^ k - 1 < 2 ^ 32 := by omega
  have hbits : g.hash n = n % 2 ^ k := by
    unfold hash
    rw [hcap, BitVec.toNat_and, BitVec.ofInt_natCast, BitVec.toNat_ofNat, BitVec.toNat_ofNat,
      Nat.mod_eq_of_lt hmask, Nat.mod_eq_of_lt (by omega), Nat.and_two_pow_sub_one_eq_mod]
  rw [hbits, hcap]
  push_cast
  rfl

/-! ## What holds of the table -/

/-- Slots and connections point at each other, and no id is above the counter. -/
structure Linked (g : GateState) : Prop extends g.Sized where
  index_nonneg : 0 ≤ g.id_index
  index_le : g.id_index ≤ INT_MAX
  slot : ∀ (i c : ℕ), g.agent i = some c →
    c < g.max_connection ∧ (g.map c).uid ≠ 0 ∧ g.hash (g.map c).uid = i
  uid : ∀ c : ℕ, (g.map c).uid ≠ 0 → 0 < (g.map c).uid ∧ (g.map c).uid ≤ g.id_index ∧
    g.agent (g.hash (g.map c).uid) = some c

theorem Linked.of_init {max : ℕ} (h : gate_init max = some g) : g.Linked := by
  have hsized := Sized.of_init h
  unfold gate_init at h
  split at h
  · cases h
  · obtain ⟨cap, -, rfl⟩ := Option.map_eq_some_iff.mp h
    exact ⟨hsized, le_refl 0, show (0 : ℤ) ≤ 2147483647 by decide, nofun, fun c hc => absurd rfl hc⟩

/-- Two connections with one id are one. -/
theorem Linked.uid_inj {c' : ℕ} (h : g.Linked) (hc : (g.map c).uid ≠ 0)
    (heq : (g.map c').uid = (g.map c).uid) : c' = c := by
  have h1 := (h.uid c hc).2.2
  have h2 := (h.uid c' (heq ▸ hc)).2.2
  rw [heq, h1] at h2
  exact (Option.some.inj h2).symm

/-- The table answers for an id just with the connection that has it. -/
theorem Linked.id_to_agent (h : g.Linked) :
    g._id_to_agent uid = some c ↔ uid ≠ 0 ∧ (g.map c).uid = uid := by
  unfold _id_to_agent
  constructor
  · intro heq
    split at heq
    · rename_i conn hconn
      split at heq
      · rename_i huid
        obtain rfl := Option.some.inj heq
        exact ⟨huid ▸ (h.slot _ _ hconn).2.1, huid⟩
      · cases heq
    · cases heq
  · rintro ⟨h0, rfl⟩
    rw [(h.uid c h0).2.2]
    exact if_pos rfl

/-- With a connection that has no id there is a free slot. -/
theorem Linked.exists_free (h : g.Linked) (hc : c < g.max_connection) (h0 : (g.map c).uid = 0) :
    ∃ i, i < g.cap ∧ g.agent i = none := by
  by_contra hfull
  push Not at hfull
  have hconn : ∀ i, i < g.cap → ∃ c', g.agent i = some c' := fun i hi =>
    Option.ne_none_iff_exists'.mp (hfull i hi)
  choose! conn hconn using hconn
  -- every slot has a connection of its own, and `c` has none
  have hmaps : ∀ i ∈ Finset.range g.cap, conn i ∈ (Finset.range g.max_connection).erase c := by
    intro i hi
    obtain ⟨hlt, huid, -⟩ := h.slot i _ (hconn i (Finset.mem_range.mp hi))
    refine Finset.mem_erase.mpr ⟨?_, Finset.mem_range.mpr hlt⟩
    rintro heq
    rw [heq] at huid
    exact huid h0
  have hinj : Set.InjOn conn (Finset.range g.cap) := by
    intro i hi j hj heq
    have h1 := (h.slot i _ (hconn i (Finset.mem_range.mp hi))).2.2
    have h2 := (h.slot j _ (hconn j (Finset.mem_range.mp hj))).2.2
    rw [← h1, ← h2, heq]
  have hcard := Finset.card_le_card_of_injOn conn hmaps hinj
  rw [Finset.card_erase_of_mem (Finset.mem_range.mpr hc), Finset.card_range,
    Finset.card_range] at hcard
  have := h.max_le
  omega

/-! ## New ids -/

/-- Where the loop can stop. -/
theorem search_cases (uid : ℤ) {n i : ℕ} (hsum : i + n = g.cap) :
    (∃ j, i ≤ j ∧ j < g.cap ∧ uid + j ≤ INT_MAX ∧ g.agent (g.hash (uid + j)) = none ∧
      g.search uid n i = .ok (uid + j)) ∨
    (∃ j, i ≤ j ∧ j < g.cap ∧ INT_MAX < uid + j ∧ g.search uid n i = .error .overflow) ∨
    (∀ j, i ≤ j → j < g.cap → uid + j ≤ INT_MAX ∧ g.agent (g.hash (uid + j)) ≠ none) := by
  induction n generalizing i with
  | zero => exact .inr (.inr fun j h1 h2 => absurd h2 (by omega))
  | succ n ih =>
    unfold search
    by_cases hmax : uid + i > INT_MAX
    · rw [if_pos hmax]
      exact .inr (.inl ⟨i, le_refl i, by omega, hmax, rfl⟩)
    · rw [if_neg hmax]
      by_cases hfree : g.agent (g.hash (uid + i)) = none
      · rw [if_pos hfree]
        exact .inl ⟨i, le_refl i, by omega, by omega, hfree, rfl⟩
      · rw [if_neg hfree]
        rcases ih (i := i + 1) (by omega) with ⟨j, h1, h⟩ | ⟨j, h1, h⟩ | hall
        · exact .inl ⟨j, by omega, h⟩
        · exact .inr (.inl ⟨j, by omega, h⟩)
        · refine .inr (.inr fun j h1 h2 => ?_)
          rcases Nat.eq_or_lt_of_le h1 with rfl | hlt
          · exact ⟨by omega, hfree⟩
          · exact hall j hlt h2

/-- A connection without an id gets one, unless the counter runs out of numbers. -/
theorem Linked.gen_id (h : g.Linked) (hc : c < g.max_connection) (h0 : (g.map c).uid = 0) :
    (∃ uid, g._gen_id c = .ok (g.enter c uid, uid) ∧ g.id_index < uid ∧ uid ≤ INT_MAX ∧
      g.agent (g.hash uid) = none) ∨
    (g._gen_id c = .error .overflow ∧ INT_MAX < g.id_index + g.cap) := by
  have hnn := h.index_nonneg
  unfold _gen_id
  rcases search_cases (g.id_index + 1) (Nat.zero_add g.cap) with
    ⟨j, -, -, hmax, hfree, hrun⟩ | ⟨j, -, hj, hmax, hrun⟩ | hall
  · rw [hrun]
    exact .inl ⟨_, rfl, by omega, hmax, hfree⟩
  · rw [hrun]
    exact .inr ⟨rfl, by omega⟩
  · -- some number of the round has the free slot
    exfalso
    obtain ⟨i, hi, hfree⟩ := h.exists_free hc h0
    have hcap : (0 : ℤ) < g.cap := by omega
    have hj := Int.emod_nonneg ((i : ℤ) - (g.id_index + 1)) hcap.ne'
    have hj' := Int.emod_lt_of_pos ((i : ℤ) - (g.id_index + 1)) hcap
    obtain ⟨j, hjeq⟩ := Int.eq_ofNat_of_zero_le hj
    obtain ⟨hmax, htaken⟩ := hall j (Nat.zero_le j) (by omega)
    apply htaken
    have hhash : (g.hash (g.id_index + 1 + j) : ℤ) = _ := h.hash_eq (by omega) hmax
    have hround : (g.id_index + 1 + j) % (g.cap : ℤ) = i := by
      have hmod := Int.add_emod_emod (g.id_index + 1) (i - (g.id_index + 1)) (g.cap : ℤ)
      rw [hjeq, show g.id_index + 1 + (i - (g.id_index + 1)) = (i : ℤ) by ring,
        Int.emod_eq_of_lt (a := (i : ℤ)) (by omega) (by omega)] at hmod
      exact hmod
    rw [hround] at hhash
    rw [show g.hash (g.id_index + 1 + j) = i by exact_mod_cast hhash]
    exact hfree

/-! ## The steps -/

/-- A new number in a free slot. -/
theorem Linked.enter (h : g.Linked) (hc : c < g.max_connection) (h0 : (g.map c).uid = 0)
    (hlt : g.id_index < uid) (hle : uid ≤ INT_MAX) (hfree : g.agent (g.hash uid) = none) :
    (g.enter c uid).Linked := by
  have hnn := h.index_nonneg
  have huid : ∀ c', ((g.enter c uid).map c').uid = if c' = c then uid else (g.map c').uid := by
    intro c'
    show (Function.update g.map c { g.map c with uid := uid } c').uid = _
    by_cases heq : c' = c
    · rw [heq, Function.update_self, if_pos rfl]
    · rw [Function.update_of_ne heq, if_neg heq]
  refine ⟨⟨h.pow, h.max_le⟩, by show 0 ≤ uid; omega, hle, fun i c' hi => ?_, fun c' hc' => ?_⟩
  · change Function.update g.agent (g.hash uid) (some c) i = some c' at hi
    rw [huid]
    by_cases heq : i = g.hash uid
    · rw [heq, Function.update_self] at hi
      obtain rfl := Option.some.inj hi
      rw [if_pos rfl]
      exact ⟨hc, by omega, heq.symm⟩
    · rw [Function.update_of_ne heq] at hi
      obtain ⟨hlt', huid', hhash⟩ := h.slot i c' hi
      rw [if_neg (by rintro rfl; exact huid' h0)]
      exact ⟨hlt', huid', hhash⟩
  · rw [huid] at hc' ⊢
    show _ ∧ _ ≤ uid ∧ Function.update g.agent (g.hash uid) (some c) (g.hash _) = some c'
    by_cases heq : c' = c
    · rw [if_pos heq, Function.update_self, heq]
      exact ⟨by omega, le_refl _, rfl⟩
    · rw [if_neg heq] at hc' ⊢
      obtain ⟨hpos, hle', hagent⟩ := h.uid c' hc'
      refine ⟨hpos, by omega, ?_⟩
      rw [Function.update_of_ne (by intro hh; rw [hh, hfree] at hagent; cases hagent)]
      exact hagent

/-- An open connection can be closed, and that empties its slot. -/
theorem Linked.remove_id (h : g.Linked) (h0 : (g.map c).uid ≠ 0) :
    ∃ g', g._remove_id (g.map c).uid = some g' ∧ g'.Linked ∧
      ∀ c', (g'.map c').uid = if c' = c then 0 else (g.map c').uid := by
  obtain ⟨-, -, hagent⟩ := h.uid c h0
  have hrun : g._remove_id (g.map c).uid = some { g with
      agent := Function.update g.agent (g.hash (g.map c).uid) none
      map := Function.update g.map c { g.map c with uid := 0, agent := 0 } } := by
    unfold _remove_id
    rw [hagent]
    exact if_pos rfl
  refine ⟨_, hrun, ?_⟩
  have huid : ∀ c', (Function.update g.map c { g.map c with uid := 0, agent := 0 } c').uid =
      if c' = c then 0 else (g.map c').uid := by
    intro c'
    by_cases heq : c' = c
    · rw [heq, Function.update_self, if_pos rfl]
    · rw [Function.update_of_ne heq, if_neg heq]
  refine ⟨⟨⟨h.pow, h.max_le⟩, h.index_nonneg, h.index_le, fun i c' hi => ?_, fun c' hc' => ?_⟩, huid⟩
  · by_cases heq : i = g.hash (g.map c).uid
    · rw [heq] at hi
      change Function.update g.agent _ none _ = some c' at hi
      rw [Function.update_self] at hi
      cases hi
    · change Function.update g.agent _ none _ = some c' at hi
      rw [Function.update_of_ne heq] at hi
      obtain ⟨hlt', huid', hhash⟩ := h.slot i c' hi
      have hne : c' ≠ c := by
        rintro rfl
        exact heq hhash.symm
      refine ⟨hlt', ?_, ?_⟩
      · rw [huid, if_neg hne]
        exact huid'
      · rw [huid, if_neg hne]
        exact hhash
  · have hne : c' ≠ c := by
      rintro rfl
      rw [huid, if_pos rfl] at hc'
      exact hc' rfl
    rw [huid, if_neg hne] at hc' ⊢
    obtain ⟨hpos, hle', hagent'⟩ := h.uid c' hc'
    refine ⟨hpos, hle', ?_⟩
    show Function.update g.agent _ none (g.hash _) = some c'
    rw [Function.update_of_ne]
    · exact hagent'
    · intro hh
      rw [hh, hagent] at hagent'
      exact hne (Option.some.inj hagent').symm

/-- `forward` changes no id. -/
theorem Linked.forward (h : g.Linked) (id : ℤ) (a b : ℕ) :
    (g._forward_agent id a b).Linked ∧
      ∀ c, ((g._forward_agent id a b).map c).uid = (g.map c).uid := by
  unfold _forward_agent
  cases g._id_to_agent id with
  | none => exact ⟨h, fun _ => rfl⟩
  | some conn =>
    have huid : ∀ c, (Function.update g.map conn
        { g.map conn with agent := a, client := b } c).uid = (g.map c).uid := by
      intro c
      by_cases heq : c = conn
      · rw [heq, Function.update_self]
      · rw [Function.update_of_ne heq]
    refine ⟨⟨⟨h.pow, h.max_le⟩, h.index_nonneg, h.index_le, fun i c hi => ?_, fun c hc => ?_⟩, huid⟩
    · rw [huid]
      exact h.slot i c hi
    · rw [huid] at hc ⊢
      exact h.uid c hc

/-- The live ids are those of the connections. -/
structure Agrees (g : GateState) (live : ℤ → Option ℕ) : Prop where
  linked : g.Linked
  live : ∀ (uid : ℤ) (c : ℕ), live uid = some c ↔ uid ≠ 0 ∧ (g.map c).uid = uid

variable {max : ℕ} {live : ℤ → Option ℕ}

theorem Agrees.opened (h : g.Agrees live) (hc : c < g.max_connection)
    (h0 : (g.map c).uid = 0) (hlt : g.id_index < uid) (hle : uid ≤ INT_MAX)
    (hfree : g.agent (g.hash uid) = none) :
    (g.enter c uid).Agrees (Function.update live uid (some c)) := by
  have hnn : 0 ≤ g.id_index := h.linked.index_nonneg
  refine ⟨h.linked.enter hc h0 hlt hle hfree, fun u c' => ?_⟩
  show Function.update live uid (some c) u = some c' ↔
    u ≠ 0 ∧ (Function.update g.map c { g.map c with uid := uid } c').uid = u
  by_cases hu : u = uid
  · rw [hu, Function.update_self]
    constructor
    · intro heq
      obtain rfl := Option.some.inj heq
      rw [Function.update_self]
      exact ⟨by omega, rfl⟩
    · rintro ⟨-, heq⟩
      by_cases hcc : c' = c
      · rw [hcc]
      · rw [Function.update_of_ne hcc] at heq
        have hle' : (g.map c').uid ≤ g.id_index := (h.linked.uid c' (by show (g.map c').uid ≠ 0; omega)).2.1
        omega
  · rw [Function.update_of_ne hu, h.live]
    by_cases hcc : c' = c
    · rw [hcc, Function.update_self, h0]
      constructor
      · rintro ⟨h1, h2⟩
        exact absurd h2.symm h1
      · rintro ⟨-, h2⟩
        exact absurd h2.symm hu
    · rw [Function.update_of_ne hcc]

theorem Agrees.closed (h : g.Agrees live) (h0 : (g.map c).uid ≠ 0)
    (hrun : g._remove_id (g.map c).uid = some g') :
    g'.Agrees (Function.update live (g.map c).uid none) := by
  obtain ⟨g₁, hrun₁, hlinked, huid⟩ := h.linked.remove_id h0
  obtain rfl := Option.some.inj (hrun.symm.trans hrun₁)
  refine ⟨hlinked, fun u c' => ?_⟩
  show Function.update live (g.map c).uid none u = some c' ↔ u ≠ 0 ∧ (g'.map c').uid = u
  rw [huid]
  by_cases hu : u = (g.map c).uid
  · rw [hu, Function.update_self]
    constructor
    · exact nofun
    · rintro ⟨-, heq⟩
      by_cases hcc : c' = c
      · rw [if_pos hcc] at heq
        exact absurd heq.symm h0
      · rw [if_neg hcc] at heq
        exact absurd (h.linked.uid_inj h0 heq) hcc
  · rw [Function.update_of_ne hu, h.live]
    by_cases hcc : c' = c
    · rw [hcc, if_pos rfl]
      constructor
      · rintro ⟨-, heq⟩
        exact absurd heq.symm hu
      · rintro ⟨h1, h2⟩
        exact absurd h2.symm h1
    · rw [if_neg hcc]

/-- What is true of the table at the start and after every step. -/
theorem agrees : (observed max).Inductive fun p => p.1.Agrees p.2 where
  init := by
    rintro ⟨g, live⟩ ⟨hinit, hlive⟩
    obtain rfl : live = fun _ => none := hlive
    refine ⟨.of_init hinit, fun uid c => ?_⟩
    obtain ⟨cap, -, rfl⟩ : ∃ cap, capFor max 31 1 = some cap ∧ g =
        ⟨0, cap, max, fun _ => none, fun _ => ⟨0, 0, 0⟩⟩ := by
      have hinit : gate_init max = some g := hinit
      unfold gate_init at hinit
      split at hinit
      · cases hinit
      · obtain ⟨cap, hcap, rfl⟩ := Option.map_eq_some_iff.mp hinit
        exact ⟨cap, hcap, rfl⟩
    constructor
    · exact nofun
    · rintro ⟨h1, h2⟩
      exact absurd h2.symm h1
  step := by
    rintro ⟨g, live⟩ e ⟨g', live'⟩ - h ⟨hstep, hlive⟩
    obtain rfl : live' = g.note e g' live := hlive
    have hstep : g.exec e = some g' := hstep
    cases e with
    | opened c =>
      simp only [exec] at hstep
      split at hstep
      · rename_i hc
        rcases h.linked.gen_id hc.1 hc.2 with ⟨uid, hrun, hlt, hle, hfree⟩ | ⟨hrun, -⟩
        · rw [hrun] at hstep
          obtain rfl := Option.some.inj hstep
          have hnew : ((g.enter c uid).map c).uid = uid := by
            show (Function.update g.map c _ c).uid = uid
            rw [Function.update_self]
          show (g.enter c uid).Agrees (Function.update live ((g.enter c uid).map c).uid (some c))
          rw [hnew]
          exact h.opened hc.1 hc.2 hlt hle hfree
        · rw [hrun] at hstep
          cases hstep
      · cases hstep
    | closed c =>
      simp only [exec] at hstep
      split at hstep
      · rename_i hc
        exact h.closed hc.2 hstep
      · cases hstep
    | forward id a b =>
      obtain rfl := Option.some.inj hstep
      obtain ⟨hlinked, huid⟩ := h.linked.forward id a b
      refine ⟨hlinked, fun u c => ?_⟩
      rw [huid]
      exact h.live u c

/-- **The connection table.** In every state the gate reaches, a connection without an id
gets a number that is not live unless the counter runs out of numbers, no close fails
an assertion, and the table answers for an id just with the connection it is live for. -/
theorem connection_table (h : (observed max).Reachable (g, live)) :
    (∀ c, c < g.max_connection → (g.map c).uid = 0 →
      (∃ g' uid, g._gen_id c = .ok (g', uid) ∧ 0 < uid ∧ live uid = none ∧
        g'._id_to_agent uid = some c) ∨
      (g._gen_id c = .error .overflow ∧ INT_MAX < g.id_index + g.cap)) ∧
    (∀ c, (g.map c).uid ≠ 0 → ∃ g', g._remove_id (g.map c).uid = some g') ∧
    ∀ (uid : ℤ) (c : ℕ), g._id_to_agent uid = some c ↔ live uid = some c := by
  have hagrees : g.Agrees live := agrees.invariant _ h
  have hnn : 0 ≤ g.id_index := hagrees.linked.index_nonneg
  refine ⟨fun c hc h0 => ?_, fun c h0 => ?_, fun uid c => ?_⟩
  · rcases hagrees.linked.gen_id hc h0 with ⟨uid, hrun, hlt, hle, hfree⟩ | hover
    · refine .inl ⟨_, uid, hrun, by omega, ?_, ?_⟩
      · rw [Option.eq_none_iff_forall_ne_some]
        intro c' hlive
        obtain ⟨h1, h2⟩ := (hagrees.live uid c').mp hlive
        have hle' : (g.map c').uid ≤ g.id_index := (hagrees.linked.uid c' (h2.symm ▸ h1)).2.1
        omega
      · refine (hagrees.linked.enter hc h0 hlt hle hfree).id_to_agent.mpr ⟨by omega, ?_⟩
        show (Function.update g.map c _ c).uid = uid
        rw [Function.update_self]
    · exact .inr hover
  · obtain ⟨g', hrun, -⟩ := hagrees.linked.remove_id h0
    exact ⟨g', hrun⟩
  · rw [hagrees.linked.id_to_agent, hagrees.live]

/-- A connection closed and opened again: its old id is no longer answered for. -/
theorem connection_table_reopened :
    ∃ g live, TSys.execAll (TSys.observeExec exec note)
        (⟨0, 2, 2, fun _ => none, fun _ => ⟨0, 0, 0⟩⟩, fun _ => none)
        [.opened 0, .opened 1, .closed 0, .opened 0] = some (g, live) ∧
      g._id_to_agent 3 = some 0 ∧ g._id_to_agent 1 ≠ some 0 := by
  obtain ⟨⟨g, live⟩, hrun⟩ := Option.isSome_iff_exists.mp
    (show (TSys.execAll (TSys.observeExec exec note)
        (⟨0, 2, 2, fun _ => none, fun _ => ⟨0, 0, 0⟩⟩, fun _ => none)
        [.opened 0, .opened 1, .closed 0, .opened 0]).isSome = true from rfl)
  have hstart : (observed 2).Reachable (⟨0, 2, 2, fun _ => none, fun _ => ⟨0, 0, 0⟩⟩,
      fun _ => none) := .init ⟨rfl, rfl⟩
  have hreach := TSys.Reachable.execAll
    (TSys.observeExec_step (T := system 2) fun _ _ _ h => h) hstart hrun
  have htable := (connection_table hreach).2.2
  refine ⟨g, live, hrun, (htable 3 0).mpr ?_, fun h => ?_⟩
  · cases hrun
    rfl
  · have hlive := (htable 1 0).mp h
    cases hrun
    cases hlive

/-! ## Numbers that are skipped -/

/-- Two connections; the second holds slot 0, and the first got the last number. -/
structure Pair (u : ℤ) (g : GateState) : Prop where
  cap : g.cap = 2
  max_connection : g.max_connection = 2
  id_index : g.id_index = u
  first : (g.map 0).uid = u
  slots : g.agent 0 = some 1 ∧ g.agent 1 = some 0

theorem Pair.hash {u v : ℤ} (h : Pair u g) (h0 : 0 ≤ v) (hv : v ≤ INT_MAX) :
    (g.hash v : ℤ) = v % 2 := by
  have hsized : g.Sized := ⟨⟨1, by omega, h.cap⟩, by rw [h.cap, h.max_connection]⟩
  have heq := hsized.hash_eq h0 hv
  rw [h.cap] at heq
  exact heq

/-- The first connection closes, and the next number is one above the counter. -/
theorem Pair.close {u : ℤ} (h : Pair u g) (hodd : u % 2 = 1) (h0 : 0 < u) (hu : u ≤ INT_MAX) :
    ∃ g', g.exec (.closed 0) = some g' ∧ g'.cap = 2 ∧ g'.max_connection = 2 ∧ g'.id_index = u ∧
      (g'.map 0).uid = 0 ∧ g'.agent 0 = some 1 ∧ g'.agent 1 = none := by
  have hhash : g.hash u = 1 := by
    have := h.hash (v := u) (by omega) hu
    omega
  have hagent : g.agent (g.hash u) = some 0 := hhash ▸ h.slots.2
  refine ⟨{ g with
      agent := Function.update g.agent 1 none
      map := Function.update g.map 0 { g.map 0 with uid := 0, agent := 0 } }, ?_,
    h.cap, h.max_connection, h.id_index, rfl, h.slots.1, rfl⟩
  simp only [exec, h.first, h.max_connection]
  rw [if_pos ⟨by omega, by omega⟩, _remove_id, hagent]
  simp only [h.first, if_true, hhash, h.max_connection]

theorem Pair.round {u : ℤ} (h : Pair u g) (hodd : u % 2 = 1) (h0 : 0 < u)
    (hu : u + 2 ≤ INT_MAX) :
    ∃ g', TSys.execAll exec g [.closed 0, .opened 0] = some g' ∧ Pair (u + 2) g' := by
  obtain ⟨g₁, hclose, hcap, hmax, hid, hfirst, hzero, hone⟩ := h.close hodd h0 (by omega)
  have hsized : g₁.Sized := ⟨⟨1, by omega, hcap⟩, by rw [hcap, hmax]⟩
  have hhash0 : g₁.hash (u + 1) = 0 := by
    have : (g₁.hash (u + 1) : ℤ) = _ := hsized.hash_eq (by omega) (by omega)
    rw [hcap] at this
    omega
  have hhash1 : g₁.hash (u + 2) = 1 := by
    have : (g₁.hash (u + 2) : ℤ) = _ := hsized.hash_eq (by omega) (by omega)
    rw [hcap] at this
    omega
  have hgen : g₁._gen_id 0 = .ok (g₁.enter 0 (u + 2), u + 2) := by
    have hnext : u + 1 + ((0 : ℕ) : ℤ) = u + 1 := by omega
    have hnext' : u + 1 + ((0 + 1 : ℕ) : ℤ) = u + 2 := by omega
    rw [_gen_id, hcap, hid, search, hnext, hhash0, hzero, search, hnext', hhash1, hone,
      if_neg (by omega), if_neg nofun, if_neg (by omega), if_pos rfl]
    rfl
  refine ⟨g₁.enter 0 (u + 2), ?_, hcap, hmax, rfl, rfl, ?_, ?_⟩
  · rw [TSys.execAll, hclose, Option.bind_some, TSys.execAll]
    simp only [exec]
    rw [if_pos ⟨by omega, hfirst⟩, hgen]
    rfl
  · show Function.update g₁.agent (g₁.hash (u + 2)) _ 0 = some 1
    rw [hhash1]
    exact hzero
  · show Function.update g₁.agent (g₁.hash (u + 2)) _ 1 = some 0
    rw [hhash1]
    exact Function.update_self ..

theorem Pair.rounds {u : ℤ} (n : ℕ) (h : Pair u g) (hodd : u % 2 = 1) (h0 : 0 < u)
    (hu : u + 2 * n ≤ INT_MAX) :
    ∃ g', TSys.execAll exec g (List.replicate n [.closed 0, .opened 0]).flatten = some g' ∧
      Pair (u + 2 * n) g' := by
  induction n generalizing u g with
  | zero =>
    refine ⟨g, rfl, ?_⟩
    rw [Nat.cast_zero, mul_zero, add_zero]
    exact h
  | succ n ih =>
    obtain ⟨g₁, hround, hpair⟩ := h.round hodd h0 (by omega)
    obtain ⟨g', hrest, hend⟩ := ih hpair (by omega) (by omega) (by omega)
    refine ⟨g', ?_, ?_⟩
    · rw [List.replicate_succ, List.flatten_cons, TSys.execAll_append, hround, Option.bind_some]
      exact hrest
    · rw [show u + 2 * ((n + 1 : ℕ) : ℤ) = u + 2 + 2 * n by omega]
      exact hend

/-- With two connections, one of them open all the time, every second number is skipped:
half of the numbers are issued, and the next id is no `int`. -/
theorem gen_id_overflow :
    ∃ (es : List ConnEvent) (g₀ g : GateState), gate_init 2 = some g₀ ∧
      es.countP ConnEvent.isOpened < 2147483648 ∧
      TSys.execAll exec g₀ es = some g ∧ (g.map 0).uid = 0 ∧
      g._gen_id 0 = .error .overflow := by
  obtain ⟨g₂, hstart⟩ := Option.isSome_iff_exists.mp
    (show (TSys.execAll exec ⟨0, 2, 2, fun _ => none, fun _ => ⟨0, 0, 0⟩⟩
      [.opened 0, .opened 1, .closed 0, .opened 0]).isSome = true from rfl)
  have hpair : Pair 3 g₂ := by
    cases hstart
    exact ⟨rfl, rfl, rfl, rfl, rfl, rfl⟩
  -- enough rounds for the counter to stand at the last `int`
  obtain ⟨n, hn⟩ : ∃ n : ℕ, n = 1073741822 := ⟨_, rfl⟩
  have hlast : (3 : ℤ) + 2 * n = INT_MAX := by
    unfold INT_MAX
    omega
  obtain ⟨g₃, hrounds, hend⟩ := hpair.rounds n (by decide) (by decide) (by omega)
  rw [hlast] at hend
  obtain ⟨g, hclose, hcap, -, hid, hfirst, -, -⟩ := hend.close (by decide) (by decide) (le_refl _)
  refine ⟨[.opened 0, .opened 1, .closed 0, .opened 0] ++
    ((List.replicate n [.closed 0, .opened 0]).flatten ++ [.closed 0]), _, g, rfl, ?_, ?_,
    hfirst, ?_⟩
  · have hround : List.countP ConnEvent.isOpened [.closed 0, .opened 0] = 1 := rfl
    have hfirst : List.countP ConnEvent.isOpened
        [.opened 0, .opened 1, .closed 0, .opened 0] = 3 := rfl
    have hlast : List.countP ConnEvent.isOpened [.closed 0] = 0 := rfl
    rw [List.countP_append, List.countP_append, List.countP_flatten, List.map_replicate,
      List.sum_replicate, hround, hfirst, hlast, smul_eq_mul]
    omega
  · rw [TSys.execAll_append, hstart, Option.bind_some, TSys.execAll_append, hrounds,
      Option.bind_some, TSys.execAll, hclose]
    rfl
  · rw [_gen_id, hcap, hid, search, if_pos (by decide)]
    rfl

end GateState

end DnServer.Gate
