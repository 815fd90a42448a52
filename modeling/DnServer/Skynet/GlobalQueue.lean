import DnServer.Lib.Circular

/-!
# The global queue

The ring of `skynet_mq.c` from which the workers take the message queues of the
services. A slot has a flag beside it that says whether it is filled, and the
counters of 32 bits are reduced only to find a slot. While fewer queues are
pending than there are slots it is a list with two ends; with all slots filled
it looks empty, and one more queue overwrites the first.

* `Represents.execAll`: with a slot free the ring is the list; `Over.push` and
  `full_looks_empty` say what becomes of it with all of them filled.
* `in_order_iff`: so a run is right just when it `Fits`.
-/

namespace DnServer.Skynet

open DnServer.Lib.Circular

def MAX_GLOBAL_MQ : ℕ := 0x10000

/-- What a counter of type `uint32_t` wraps at. -/
def UINT32 : ℕ := 2 ^ 32

/-- `struct global_queue`; message queues are named by the numbers of their services. -/
structure GlobalQueue where
  head : ℕ
  tail : ℕ
  queue : ℕ → ℕ
  flag : ℕ → Bool

def GP (p : ℕ) : ℕ := p % MAX_GLOBAL_MQ

namespace GlobalQueue

/-- `skynet_mq_init`. -/
def init : GlobalQueue := ⟨0, 0, fun _ => 0, fun _ => false⟩

/-- `skynet_globalmq_push`. -/
def push (g : GlobalQueue) (q : ℕ) : GlobalQueue :=
  { g with
    tail := (g.tail + 1) % UINT32
    queue := Function.update g.queue (GP g.tail) q
    flag := Function.update g.flag (GP g.tail) true }

/-- The head has moved on, and its slot may be filled again. -/
def taken (g : GlobalQueue) : GlobalQueue :=
  { g with head := (g.head + 1) % UINT32, flag := Function.update g.flag (GP g.head) false }

/-- `skynet_globalmq_pop`. -/
def pop (g : GlobalQueue) : Option (ℕ × GlobalQueue) :=
  if GP g.head = GP g.tail then none
  else if g.flag (GP g.head) = false then none
  else some (g.queue (GP g.head), g.taken)

/-- The queues in it, from the head on. -/
def entries (g : GlobalQueue) : List ℕ :=
  (List.range ((g.tail + UINT32 - g.head) % UINT32)).map fun i => g.queue (GP (g.head + i))

/-- The slots that are filled. -/
def filled (g : GlobalQueue) (i : ℕ) : Option ℕ := if g.flag i then some (g.queue i) else none

/-- The filled slots from the head to the tail hold the list; one slot stays free. -/
structure Represents (g : GlobalQueue) (l : List ℕ) : Prop where
  holds : Holds MAX_GLOBAL_MQ (GP g.head) g.filled l
  head_lt : g.head < UINT32
  tail : g.tail = (g.head + l.length) % UINT32
  room : l.length < MAX_GLOBAL_MQ

variable {g : GlobalQueue} {l : List ℕ} {q : ℕ}

theorem GP_lt (p : ℕ) : GP p < MAX_GLOBAL_MQ := Nat.mod_lt p (by decide)

/-- The counters wrap at a multiple of the number of slots. -/
theorem GP_wrap (p : ℕ) : GP (p % UINT32) = GP p := Nat.mod_mod_of_dvd p (by decide)

/-- The slot of a counter that is `i` past the head. -/
theorem GP_add {i : ℕ} (p : ℕ) (hi : i < MAX_GLOBAL_MQ) :
    GP (p + i) = place MAX_GLOBAL_MQ (GP p) i := by
  rw [place_eq_mod (GP_lt p) hi.le]
  simp [GP]

theorem GP_add_ne {i : ℕ} (p : ℕ) (hi : i < MAX_GLOBAL_MQ) (h0 : i ≠ 0) : GP (p + i) ≠ GP p := by
  have hplace := @place_ne MAX_GLOBAL_MQ (GP p) i 0 hi (by decide) h0
  rwa [place_zero (GP_lt p), ← GP_add p hi] at hplace

theorem wrap_succ (p n : ℕ) : ((p + n) % UINT32 + 1) % UINT32 = (p + (n + 1)) % UINT32 := by
  rw [Nat.mod_add_mod, Nat.add_assoc]

theorem init_represents : init.Represents [] where
  holds := .nil (GP_lt 0)
  head_lt := by decide
  tail := rfl
  room := by decide

theorem Represents.push (h : g.Represents l) (hroom : l.length + 1 < MAX_GLOBAL_MQ) :
    (g.push q).Represents (l ++ [q]) where
  holds := by
    have hslot : GP g.tail = place MAX_GLOBAL_MQ (GP g.head) l.length := by
      rw [h.tail, GP_wrap, GP_add _ h.room]
    have hfilled : (g.push q).filled = Function.update g.filled (GP g.tail) (some q) := by
      funext i
      by_cases hi : i = GP g.tail
      · subst hi
        simp [filled, GlobalQueue.push]
      · simp [filled, GlobalQueue.push, hi]
    rw [hfilled, hslot]
    exact h.holds.pushBack h.room
  head_lt := h.head_lt
  tail := by
    rw [List.length_append, List.length_singleton]
    show (g.tail + 1) % UINT32 = (g.head + (l.length + 1)) % UINT32
    rw [h.tail, wrap_succ]
  room := by
    rw [List.length_append, List.length_singleton]
    exact hroom

theorem Represents.first (h : g.Represents (q :: l)) :
    g.flag (GP g.head) = true ∧ g.queue (GP g.head) = q := by
  have hfirst := h.holds.pop.1
  unfold filled at hfirst
  split at hfirst
  · rename_i hflag
    exact ⟨hflag, Option.some.inj hfirst⟩
  · cases hfirst

/-- Emptying the slot of the head leaves the others as they are. -/
theorem Represents.taken (h : g.Represents (q :: l)) : g.taken.Represents l := by
  have hroom := h.room
  rw [List.length_cons] at hroom
  have hhead : GP g.taken.head = GP (g.head + 1) := GP_wrap (g.head + 1)
  refine ⟨⟨GP_lt _, by omega, ?_⟩, Nat.mod_lt _ (by decide), ?_, by omega⟩
  · intro i a ha
    have hi : i < l.length := (List.getElem?_eq_some_iff.mp ha).1
    have hslot : place MAX_GLOBAL_MQ (GP g.taken.head) i =
        place MAX_GLOBAL_MQ (GP g.head) (i + 1) := by
      rw [hhead, ← GP_add _ (by omega), ← GP_add _ (by omega), Nat.add_assoc, Nat.add_comm 1]
    have hne : place MAX_GLOBAL_MQ (GP g.head) (i + 1) ≠ GP g.head := by
      rw [← GP_add _ (by omega)]
      exact GP_add_ne _ (by omega) (Nat.succ_ne_zero i)
    have hold := h.holds.slots (i + 1) a ha
    rw [hslot]
    have hflag : g.taken.flag (place MAX_GLOBAL_MQ (GP g.head) (i + 1)) =
        g.flag (place MAX_GLOBAL_MQ (GP g.head) (i + 1)) := Function.update_of_ne hne _ _
    unfold filled at hold ⊢
    rw [hflag]
    exact hold
  · show g.tail = ((g.head + 1) % UINT32 + l.length) % UINT32
    rw [h.tail, List.length_cons, Nat.mod_add_mod, Nat.add_assoc, Nat.add_comm 1]

/-- What is popped is the first entry. -/
theorem Represents.pop (h : g.Represents l) :
    (l = [] ∧ g.pop = none) ∨
      ∃ q l', l = q :: l' ∧ g.pop = some (q, g.taken) ∧ g.taken.Represents l' := by
  cases l with
  | nil =>
    refine .inl ⟨rfl, if_pos ?_⟩
    rw [h.tail, GP_wrap, List.length_nil, Nat.add_zero]
  | cons q l =>
    refine .inr ⟨q, l, rfl, ?_, h.taken⟩
    obtain ⟨hflag, hqueue⟩ := h.first
    have hne : GP g.head ≠ GP g.tail := by
      rw [h.tail, GP_wrap]
      exact (GP_add_ne _ h.room (Nat.succ_ne_zero _)).symm
    rw [GlobalQueue.pop, if_neg hne, if_neg (by simp [hflag]), hqueue]

theorem Represents.entries (h : g.Represents l) : g.entries = l := by
  have hroom := h.room
  have hlen : (g.tail + UINT32 - g.head) % UINT32 = l.length := by
    have hhead := h.head_lt
    have hsmall : MAX_GLOBAL_MQ < UINT32 := by decide
    rw [h.tail]
    generalize UINT32 = n at hhead hsmall ⊢
    rcases Nat.lt_or_ge (g.head + l.length) n with hlt | hge
    · rw [Nat.mod_eq_of_lt hlt, show g.head + l.length + n - g.head = l.length + n by omega,
        Nat.add_mod_right, Nat.mod_eq_of_lt (by omega)]
    · rw [Nat.mod_eq_sub_mod hge, Nat.mod_eq_of_lt (show g.head + l.length - n < n by omega),
        show g.head + l.length - n + n - g.head = l.length by omega, Nat.mod_eq_of_lt (by omega)]
  refine List.ext_getElem (by simp [GlobalQueue.entries, hlen]) ?_
  intro i hi hl
  have hslot := h.holds.slots i l[i] (List.getElem?_eq_getElem hl)
  rw [← GP_add _ (by omega)] at hslot
  unfold filled at hslot
  split at hslot
  · simpa [GlobalQueue.entries] using Option.some.inj hslot
  · cases hslot

/-! ## Runs -/

/-- More queues than slots: the slot of the head holds the last one that was put there. -/
structure Over (g : GlobalQueue) (l : List ℕ) : Prop where
  first : l[MAX_GLOBAL_MQ * ((l.length - 1) / MAX_GLOBAL_MQ)]? = some (g.queue (GP g.head))
  flag : g.flag (GP g.head) = true
  tail : g.tail = (g.head + l.length) % UINT32

theorem Represents.over (h : g.Represents (q :: l)) : g.Over (q :: l) where
  first := by
    have hroom := h.room
    rw [List.length_cons] at hroom ⊢
    rw [Nat.div_eq_of_lt (by omega), h.first.2]
    rfl
  flag := h.first.1
  tail := h.tail

theorem Over.push (h : g.Over l) (hl : l ≠ []) : (g.push q).Over (l ++ [q]) := by
  have hpos := List.length_pos_iff.mpr hl
  have hslot : GP g.tail = GP (g.head + l.length) := by rw [h.tail, GP_wrap]
  have htail : (g.push q).tail = ((g.push q).head + (l ++ [q]).length) % UINT32 := by
    rw [List.length_append, List.length_singleton]
    show (g.tail + 1) % UINT32 = (g.head + (l.length + 1)) % UINT32
    rw [h.tail, wrap_succ]
  by_cases hd : MAX_GLOBAL_MQ ∣ l.length
  · -- the new queue takes the slot of the head
    have hhead : GP g.tail = GP g.head := by
      obtain ⟨c, hc⟩ := hd
      rw [hslot, hc, GP, GP, Nat.add_mul_mod_self_left]
    refine ⟨?_, ?_, htail⟩
    · rw [List.length_append, List.length_singleton, Nat.add_sub_cancel, Nat.mul_div_cancel' hd,
        List.getElem?_concat_length]
      show some q = some (Function.update g.queue (GP g.tail) q (GP g.head))
      rw [hhead, Function.update_self]
    · show Function.update g.flag (GP g.tail) true (GP g.head) = true
      rw [hhead, Function.update_self]
  · have hne : GP g.head ≠ GP g.tail := by
      have hmod : l.length % MAX_GLOBAL_MQ ≠ 0 := fun h0 => hd (Nat.dvd_of_mod_eq_zero h0)
      have hlt := GP_lt l.length
      have heq : GP (g.head + l.length) = GP (g.head + GP l.length) := by simp [GP]
      rw [hslot, heq]
      exact (GP_add_ne _ hlt hmod).symm
    have hdiv : l.length / MAX_GLOBAL_MQ = (l.length - 1) / MAX_GLOBAL_MQ := by
      obtain ⟨n, hn⟩ := Nat.exists_eq_add_of_lt hpos
      rw [Nat.zero_add] at hn
      rw [hn, Nat.succ_div_of_not_dvd (hn ▸ hd), Nat.add_sub_cancel]
    refine ⟨?_, ?_, htail⟩
    · rw [List.length_append, List.length_singleton, Nat.add_sub_cancel, hdiv]
      have hlt := (List.getElem?_eq_some_iff.mp h.first).1
      rw [List.getElem?_append_left hlt, h.first]
      exact congrArg some (Function.update_of_ne hne _ _).symm
    · exact (Function.update_of_ne hne _ _).trans h.flag

end GlobalQueue

/-- What is done to the global queue. -/
inductive GlobalOp
  | push (q : ℕ)
  | pop
  deriving DecidableEq, Repr

namespace GlobalQueue

/-- The operations in order, with what the pops give. -/
def execAll (g : GlobalQueue) : List GlobalOp → List (Option ℕ)
  | [] => []
  | .push q :: ops => (g.push q).execAll ops
  | .pop :: ops =>
    match g.pop with
    | none => none :: g.execAll ops
    | some (q, g') => some q :: g'.execAll ops

end GlobalQueue

namespace GlobalOp

/-- What the pops give of a list with two ends, from the queues that are pending. -/
def fifo (l : List ℕ) : List GlobalOp → List (Option ℕ)
  | [] => []
  | .push q :: ops => fifo (l ++ [q]) ops
  | .pop :: ops => l.head? :: fifo l.tail ops

/-- No pop finds as many queues pending as there are slots. -/
def Fits (l : List ℕ) : List GlobalOp → Prop
  | [] => True
  | .push q :: ops => Fits (l ++ [q]) ops
  | .pop :: ops => l.length < MAX_GLOBAL_MQ ∧ Fits l.tail ops

/-- No queue is pushed while it is pending. -/
def Distinct (l : List ℕ) : List GlobalOp → Prop
  | [] => True
  | .push q :: ops => q ∉ l ∧ Distinct (l ++ [q]) ops
  | .pop :: ops => Distinct l.tail ops

end GlobalOp

namespace GlobalQueue

open GlobalOp

variable {g : GlobalQueue} {l : List ℕ}

/-- Where all slots are filled, a run that fits pops no more. -/
theorem execAll_of_full (ops : List GlobalOp) (hl : MAX_GLOBAL_MQ ≤ l.length) (hf : Fits l ops) :
    g.execAll ops = fifo l ops := by
  induction ops generalizing g l with
  | nil => rfl
  | cons op ops ih =>
    cases op with
    | push q =>
      refine ih ?_ hf
      rw [List.length_append]
      omega
    | pop => exact absurd hf.1 (by omega)

theorem Represents.execAll (ops : List GlobalOp) (h : g.Represents l) (hf : Fits l ops) :
    g.execAll ops = fifo l ops := by
  induction ops generalizing g l with
  | nil => rfl
  | cons op ops ih =>
    cases op with
    | push q =>
      rcases Nat.lt_or_ge (l.length + 1) MAX_GLOBAL_MQ with hroom | hfull
      · exact ih (h.push hroom) hf
      · refine execAll_of_full ops ?_ hf
        rw [List.length_append, List.length_singleton]
        exact hfull
    | pop =>
      rcases h.pop with ⟨rfl, hpop⟩ | ⟨q, l', rfl, hpop, hrest⟩
      · rw [GlobalQueue.execAll, hpop]
        exact congrArg _ (ih h hf.2)
      · rw [GlobalQueue.execAll, hpop]
        exact congrArg _ (ih hrest hf.2)

/-- With all slots filled a pop finds nothing, or a queue that is not the first. -/
theorem Over.pop (h : g.Over l) (hl : MAX_GLOBAL_MQ ≤ l.length) (hn : l.Nodup) :
    g.pop.map Prod.fst ≠ l.head? := by
  have hpos : 0 < l.length := Nat.lt_of_lt_of_le (by decide) hl
  have hhead : l.head? = some l[0] := by rw [List.head?_eq_getElem?, List.getElem?_eq_getElem hpos]
  rw [hhead]
  unfold GlobalQueue.pop
  by_cases he : GP g.head = GP g.tail
  · rw [if_pos he]
    exact (Option.some_ne_none _).symm
  · rw [if_neg he, h.flag, if_neg (by simp)]
    intro heq
    have hq : g.queue (GP g.head) = l[0] := Option.some.inj heq
    have hfirst := h.first
    rw [hq, ← List.getElem?_eq_getElem hpos] at hfirst
    obtain ⟨hlt, -⟩ := List.getElem?_eq_some_iff.mp (hfirst.trans (List.getElem?_eq_getElem hpos))
    have hzero := (List.getElem?_inj hlt hn).mp hfirst
    have hone : 1 ≤ (l.length - 1) / MAX_GLOBAL_MQ := by
      rw [Nat.le_div_iff_mul_le (by decide)]
      -- with just as many queues as slots the ring looks empty
      rcases Nat.lt_or_ge MAX_GLOBAL_MQ l.length with hgt | hle
      · omega
      · have hlen : l.length = MAX_GLOBAL_MQ := by omega
        refine absurd ?_ he
        rw [h.tail, GP_wrap, hlen, GP, GP, Nat.add_mod_right]
    have hmax : 0 < MAX_GLOBAL_MQ := by decide
    have := Nat.mul_pos hmax hone
    omega

/-- A run of distinct queues that is right fits. -/
theorem fits_of_execAll (ops : List GlobalOp) (hg : g.Represents l ∨ MAX_GLOBAL_MQ ≤ l.length ∧ g.Over l)
    (hn : l.Nodup) (hd : Distinct l ops) (heq : g.execAll ops = fifo l ops) : Fits l ops := by
  induction ops generalizing g l with
  | nil => trivial
  | cons op ops ih =>
    cases op with
    | push q =>
      have hn' : (l ++ [q]).Nodup := by
        rw [List.nodup_append]
        exact ⟨hn, List.nodup_singleton q, fun a ha b hb => by
          rw [List.mem_singleton.mp hb]
          exact fun hab => hd.1 (hab ▸ ha)⟩
      refine ih ?_ hn' hd.2 heq
      rw [List.length_append, List.length_singleton]
      rcases hg with h | ⟨hl, h⟩
      · rcases Nat.lt_or_ge (l.length + 1) MAX_GLOBAL_MQ with hroom | hfull
        · exact .inl (h.push hroom)
        · refine .inr ⟨hfull, ?_⟩
          cases l with
          | nil => exact absurd hfull (by decide)
          | cons a l => exact h.over.push (List.cons_ne_nil _ _)
      · refine .inr ⟨by omega, h.push ?_⟩
        rintro rfl
        exact absurd hl (by decide)
    | pop =>
      rcases hg with h | ⟨hl, h⟩
      · refine ⟨h.room, ?_⟩
        rcases h.pop with ⟨rfl, hpop⟩ | ⟨q, l', rfl, hpop, hrest⟩
        · rw [GlobalQueue.execAll, hpop] at heq
          exact ih (.inl h) hn hd (List.tail_eq_of_cons_eq heq)
        · rw [GlobalQueue.execAll, hpop] at heq
          exact ih (.inl hrest) hn.of_cons hd (List.tail_eq_of_cons_eq heq)
      · refine absurd ?_ (h.pop hl hn)
        unfold GlobalQueue.execAll at heq
        cases hpop : g.pop with
        | none =>
          rw [hpop] at heq
          exact List.head_eq_of_cons_eq heq
        | some p =>
          rw [hpop] at heq
          exact List.head_eq_of_cons_eq heq

/-- **The global queue is first in, first out just when no pop finds all its slots filled**;
that a run which is right does so holds of queues that are not pushed while they are pending. -/
theorem in_order_iff (ops : List GlobalOp) :
    (Fits [] ops → init.execAll ops = fifo [] ops) ∧
      (Distinct [] ops → (init.execAll ops = fifo [] ops ↔ Fits [] ops)) := by
  have hfits : Fits [] ops → init.execAll ops = fifo [] ops := init_represents.execAll ops
  refine ⟨hfits, fun hd => ⟨?_, hfits⟩⟩
  exact fits_of_execAll ops (.inl init_represents) List.nodup_nil hd

/-- Pushes of the queues `l` behind those pending, and a pop. -/
def pushes (l : List ℕ) : List GlobalOp := l.map .push ++ [.pop]

theorem distinct_pushes {l₀ : List ℕ} (hn : (l₀ ++ l).Nodup) : Distinct l₀ (pushes l) := by
  induction l generalizing l₀ with
  | nil => trivial
  | cons q l ih =>
    refine ⟨?_, ih (by simpa using hn)⟩
    rw [List.nodup_append] at hn
    exact fun hq => hn.2.2 q hq q (List.mem_cons_self ..) rfl

theorem fits_pushes {l₀ : List ℕ} : Fits l₀ (pushes l) → (l₀ ++ l).length < MAX_GLOBAL_MQ := by
  induction l generalizing l₀ with
  | nil =>
    intro hf
    rw [List.append_nil]
    exact hf.1
  | cons q l ih =>
    intro hf
    have hlt : (l₀ ++ [q] ++ l).length < MAX_GLOBAL_MQ := ih hf
    simpa using hlt

/-- One queue in each slot, and the next pop finds none. -/
theorem full_looks_empty : ¬ ∀ ops : List GlobalOp, init.execAll ops = fifo [] ops := by
  intro hall
  -- the number of slots is kept as `n`, so that no list of that length is evaluated
  obtain ⟨n, hmax⟩ : ∃ n, n = MAX_GLOBAL_MQ := ⟨_, rfl⟩
  have hn : ([] ++ List.range n).Nodup := List.nodup_range
  have hf := fits_of_execAll _ (.inl init_represents) List.nodup_nil (distinct_pushes hn)
    (hall (pushes (List.range n)))
  have hlt := fits_pushes hf
  rw [List.nil_append, List.length_range, ← hmax] at hlt
  exact Nat.lt_irrefl n hlt

end GlobalQueue

end DnServer.Skynet
