import DnServer.Lib.LittleEndian

/-!
# Multicast groups

`skynet_multicast.c` collects who enters and who leaves a group in two arrays and
merges them into the members at the next cast: both are sorted, the new members are
merged in from the end of the array, and those that leave are taken out from its
front. Whether a service left before it entered again is not known any more then.
-/

namespace DnServer.Skynet.Multicast

open DnServer.Lib

/-! ## The arrays -/

/-- `struct skynet_multicast_group`; the members are the first `number` words of `data`. -/
structure Group where
  enter_queue : List ℕ
  leave_queue : List ℕ
  number : ℕ
  data : ℤ → ℕ

/-- `compar_uint`: the difference of two words as an `int`. -/
def compar_uint (a b : ℕ) : ℤ := signed ((a + 2 ^ 32 - b) % 2 ^ 32)

/-- `qsort` with that comparison. -/
def qsort (l : List ℕ) : List ℕ := l.mergeSort fun a b => decide (compar_uint a b ≤ 0)

/-- What the loops of `combine_queue` change. -/
structure Merge where
  data : ℤ → ℕ
  /-- How many words are left of the old array, `old_index + 1` in the first loop. -/
  old : ℕ
  new_index : ℤ
  last : ℕ

namespace Merge

/-- The word at `new_index`, which moves down. -/
def put (s : Merge) (v : ℕ) : Merge :=
  { s with data := Function.update s.data s.new_index v, new_index := s.new_index - 1 }

/-- The first loop of `combine_queue` for one handle of the sorted enter queue; it is tried
again after a larger member has moved. `old` members are left. -/
def enter_one (handle : ℕ) (s : Merge) : ℕ → Merge
  | 0 =>
    if handle = s.last then { s with old := 0 }
    else { s.put handle with old := 0, last := handle }
  | old + 1 =>
    if handle = s.last then { s with old := old + 1 }
    else
      let p := s.data old
      if handle = p then { s with old := old + 1, last := handle }
      else if handle > p then { s.put handle with old := old + 1, last := handle }
      else enter_one handle { s.put p with last := 0 } old

/-- The loop that moves the rest of the old members. -/
def copy_down (s : Merge) : ℕ → Merge
  | 0 => { s with old := 0 }
  | old + 1 => copy_down (s.put (s.data old)) old

end Merge

/-- What the second part of `combine_queue` changes. -/
structure Removal where
  data : ℤ → ℕ
  /-- How many words are left from `old_index` to the end. -/
  rest : ℕ
  new_index : ℤ
  count : ℤ

namespace Removal

/-- The word at `new_index`, which moves up. -/
def put (s : Removal) (v : ℕ) : Removal :=
  { s with data := Function.update s.data s.new_index v, new_index := s.new_index + 1 }

/-- The second loop of `combine_queue` for one handle of the sorted leave queue, and whether the
loop goes on; it is tried again after a smaller member has moved. -/
def leave_one (new_size : ℤ) (handle : ℕ) (s : Removal) : ℕ → Removal × Bool
  | 0 => ({ s with rest := 0, count := 0 }, false)
  | rest + 1 =>
    let p := s.data (new_size - (rest + 1))
    if handle = p then ({ s with rest := rest, count := s.count - 1 }, true)
    else if handle > p then leave_one new_size handle { s.put p with rest := rest } rest
    else ({ s with rest := rest + 1 }, true)

def leave_loop (new_size : ℤ) (s : Removal) : List ℕ → Removal
  | [] => s
  | handle :: l =>
    if (s.leave_one new_size handle s.rest).2 then
      leave_loop new_size (s.leave_one new_size handle s.rest).1 l
    else (s.leave_one new_size handle s.rest).1

/-- The last loop, `n` times. -/
def copy_up (new_size : ℤ) (s : Removal) : ℕ → Removal
  | 0 => s
  | n + 1 =>
    copy_up new_size { s.put (s.data (new_size - s.rest)) with rest := s.rest - 1 } n

end Removal

namespace Group

/-- `skynet_multicast_newgroup`. -/
def newgroup : Group := ⟨[], [], 0, fun _ => 0⟩

/-- `skynet_multicast_entergroup`. -/
def entergroup (g : Group) (handle : ℕ) : Group :=
  { g with enter_queue := g.enter_queue ++ [handle] }

/-- `skynet_multicast_leavegroup`. -/
def leavegroup (g : Group) (handle : ℕ) : Group :=
  { g with leave_queue := g.leave_queue ++ [handle] }

/-- The first part of `combine_queue`. -/
def combine_enter (g : Group) : Merge :=
  let new_size : ℕ := g.number + g.enter_queue.length
  let s : Merge := ⟨g.data, g.number, new_size - 1, 0⟩
  let s := (qsort g.enter_queue).reverse.foldl (fun s handle => s.enter_one handle s.old) s
  s.copy_down s.old

/-- The second part of `combine_queue`. -/
def combine_leave (g : Group) (new_size : ℤ) (s : Merge) : Removal :=
  let count := new_size - (s.new_index + 1)
  let r : Removal := ⟨s.data, count.toNat, 0, count⟩
  let r := r.leave_loop new_size (qsort g.leave_queue)
  r.copy_up new_size (r.count - r.new_index).toNat

/-- `combine_queue`. -/
def combine_queue (g : Group) : Group :=
  let r := g.combine_leave (g.number + g.enter_queue.length : ℕ) g.combine_enter
  { enter_queue := [], leave_queue := [], number := r.new_index.toNat, data := r.data }

/-- The members in order. -/
def members (g : Group) : List ℕ := (List.range g.number).map fun i : ℕ => g.data i

/-- `skynet_multicast_castgroup`: to whom the message goes. Members that are not alive are put
into the leave queue. -/
def castgroup (g : Group) (alive : ℕ → Bool) : List ℕ × Group :=
  let g := g.combine_queue
  (g.members.filter alive, (g.members.filter (! alive ·)).foldl leavegroup g)

end Group

/-- A message of the multicast service, and which services are alive at a cast. -/
inductive Command
  | enter (handle : ℕ)
  | leave (handle : ℕ)
  | cast (alive : ℕ → Bool)

/-! ## Words of an array -/

/-- The words from `k` on are those of the list. -/
def At (data : ℤ → ℕ) (k : ℤ) (l : List ℕ) : Prop := ∀ (i : ℕ) (v : ℕ), l[i]? = some v → data (k + i) = v

variable {data : ℤ → ℕ} {k x : ℤ} {l l' : List ℕ} {v : ℕ}

theorem At.nil : At data k [] := by
  intro i v hv
  cases hv

theorem At.update (h : At data k l) (hx : x < k ∨ k + l.length ≤ x) :
    At (Function.update data x v) k l := by
  intro i w hw
  have hi := (List.getElem?_eq_some_iff.mp hw).1
  rw [Function.update_of_ne (by omega)]
  exact h i w hw

theorem At.cons (hv : data k = v) (h : At data (k + 1) l) : At data k (v :: l) := by
  intro i w hw
  cases i with
  | zero =>
    obtain rfl := Option.some.inj hw
    simpa using hv
  | succ i =>
    have hnext := h i w hw
    rwa [add_assoc, add_comm 1] at hnext

theorem At.head (h : At data k (v :: l)) : data k = v := by
  simpa using h 0 v rfl

theorem At.tail (h : At data k (v :: l)) : At data (k + 1) l := by
  intro i w hw
  have hnext := h (i + 1) w hw
  rw [add_assoc, add_comm 1]
  exact hnext

theorem At.init (h : At data k (l ++ [v])) : At data k l := by
  intro i w hw
  refine h i w ?_
  rw [List.getElem?_append_left (List.getElem?_eq_some_iff.mp hw).1]
  exact hw

theorem At.last (h : At data k (l ++ [v])) : data (k + l.length) = v :=
  h l.length v List.getElem?_concat_length

theorem At.concat (h : At data k l) (hv : data (k + l.length) = v) : At data k (l ++ [v]) := by
  intro i w hw
  by_cases hi : i < l.length
  · rw [List.getElem?_append_left hi] at hw
    exact h i w hw
  · have hlt := (List.getElem?_eq_some_iff.mp hw).1
    rw [List.length_append, List.length_singleton] at hlt
    obtain rfl : i = l.length := by omega
    rw [List.getElem?_concat_length] at hw
    exact hv.trans (Option.some.inj hw)

/-- The words of an array are a list. -/
theorem At.eq_map (h : At data 0 l) : (List.range l.length).map (fun i : ℕ => data i) = l := by
  refine List.ext_getElem (by simp) ?_
  intro i _ hi
  have hword := h i l[i] (List.getElem?_eq_getElem hi)
  simpa using hword

/-! ## Merging in those who enter -/

/-- `o` are the old members that are left, `w` the words that are written. -/
structure Merge.Holds (s : Merge) (o w : List ℕ) : Prop where
  old : At s.data 0 o
  new : At s.data (s.new_index + 1) w
  sorted : (o ++ w).Pairwise (· < ·)

variable {s t : Merge} {o w o' w' : List ℕ} {handle : ℕ}

/-- The last of the old members that are left. -/
theorem Merge.Holds.split_last {n : ℕ} (h : s.Holds o w) (hn : o.length = n + 1) :
    ∃ o₁ p, o = o₁ ++ [p] ∧ o₁.length = n ∧ s.data n = p := by
  rcases List.eq_nil_or_concat' o with rfl | ⟨o₁, p, rfl⟩
  · cases hn
  · have hlen : o₁.length = n := by simpa using hn
    have hp := h.old.last
    rw [zero_add, hlen] at hp
    exact ⟨o₁, p, rfl, hlen, hp⟩

/-- One more word is written, below all others. -/
theorem Merge.Holds.put (h : s.Holds o w) (hroom : o.length ≤ s.new_index)
    (hsorted : (o ++ v :: w).Pairwise (· < ·)) (last old : ℕ) :
    ({ s.put v with old := old, last := last } : Merge).Holds o (v :: w) where
  old := h.old.update (.inr (by omega))
  new := by
    refine At.cons ?_ ?_
    · show Function.update s.data s.new_index v (s.new_index - 1 + 1) = v
      rw [sub_add_cancel, Function.update_self]
    · show At (Function.update s.data s.new_index v) (s.new_index - 1 + 1 + 1) w
      rw [sub_add_cancel]
      exact h.new.update (.inl (by omega))
  sorted := hsorted

/-- What one handle does: it is a member then, and no smaller word has been written. -/
structure Merge.Entered (s t : Merge) (handle : ℕ) (o w o' w' : List ℕ) : Prop where
  holds : t.Holds o' w'
  old : t.old = o'.length
  last : t.last = handle
  mem : ∀ x, x ∈ o' ++ w' ↔ x ∈ o ++ w ∨ x = handle
  le : ∀ y ∈ w', handle ≤ y
  room : s.new_index + o'.length ≤ t.new_index + o.length + 1
  total : t.new_index + w'.length = s.new_index + w.length

theorem Merge.enter_one_spec (n : ℕ) (hn : o.length = n) (h : s.Holds o w)
    (hroom : o.length ≤ s.new_index) (h0 : handle ≠ 0) (hle : ∀ y ∈ w, handle ≤ y)
    (hlt : handle ≠ s.last → ∀ y ∈ w, handle < y) (hlast : s.last = 0 ∨ s.last ∈ o ++ w) :
    ∃ o' w', Merge.Entered s (s.enter_one handle n) handle o w o' w' := by
  -- a handle that was the last one is a member already
  have hskip : handle = s.last → ∀ x, x ∈ o ++ w ↔ x ∈ o ++ w ∨ x = handle := by
    intro heq x
    have hmem : handle ∈ o ++ w := heq ▸ hlast.resolve_left fun hz => h0 (heq.trans hz)
    exact ⟨.inl, fun hx => hx.elim id fun hx => hx ▸ hmem⟩
  have hnew : ∀ y, y ∈ handle :: w → handle ≤ y := by
    intro y hy
    rcases List.mem_cons.mp hy with rfl | hy
    · exact le_rfl
    · exact hle y hy
  have hadd : ∀ x, x ∈ o ++ handle :: w ↔ x ∈ o ++ w ∨ x = handle := by
    intro x
    rw [List.mem_append, List.mem_append, List.mem_cons, or_right_comm, or_assoc]
  induction n generalizing s o w with
  | zero =>
    obtain rfl := List.length_eq_zero_iff.mp hn
    unfold enter_one
    split
    · rename_i heq
      exact ⟨[], w, ⟨h.old, h.new, h.sorted⟩, rfl, heq.symm, hskip heq, hle, by simp, rfl⟩
    · rename_i hne
      have hsorted : ([] ++ handle :: w).Pairwise (· < ·) :=
        List.pairwise_cons.mpr ⟨hlt hne, h.sorted⟩
      refine ⟨[], handle :: w, h.put hroom hsorted _ _, rfl, rfl, hadd, hnew, ?_, ?_⟩
      · show s.new_index + ((0 : ℕ) : ℤ) ≤ s.new_index - 1 + ((0 : ℕ) : ℤ) + 1
        omega
      · show s.new_index - 1 + ((w.length + 1 : ℕ) : ℤ) = _
        push_cast
        ring
  | succ n ih =>
    obtain ⟨o₁, p, rfl, hlen, hp⟩ := h.split_last hn
    have hsorted := h.sorted
    have hsame : s.new_index + (o₁ ++ [p]).length ≤ s.new_index + (o₁ ++ [p]).length + 1 := by omega
    unfold enter_one
    split
    · rename_i heq
      exact ⟨_, w, ⟨h.old, h.new, h.sorted⟩, hn.symm, heq.symm, hskip heq, hle, hsame, rfl⟩
    · rename_i hne
      dsimp only
      rw [hp]
      split
      · rename_i heq
        refine ⟨_, w, ⟨h.old, h.new, h.sorted⟩, hn.symm, rfl, ?_, hle, hsame, rfl⟩
        intro x
        have hmem : handle ∈ (o₁ ++ [p]) ++ w := by simp [heq]
        exact ⟨.inl, fun hx => hx.elim id fun hx => hx ▸ hmem⟩
      · rename_i hnp
        split
        · rename_i hgt
          have hput : ((o₁ ++ [p]) ++ handle :: w).Pairwise (· < ·) := by
            rw [List.pairwise_append] at hsorted ⊢
            refine ⟨hsorted.1, List.pairwise_cons.mpr ⟨hlt hne, hsorted.2.1⟩, ?_⟩
            intro a ha b hb
            rcases List.mem_cons.mp hb with rfl | hb
            · -- the last of the old members is the largest
              rcases List.mem_append.mp ha with ha | ha
              · exact ((List.pairwise_append.mp hsorted.1).2.2 a ha p (by simp)).trans hgt
              · rw [List.mem_singleton.mp ha]
                exact hgt
            · exact hsorted.2.2 a ha b hb
          refine ⟨_, handle :: w, h.put hroom hput _ _, hn.symm, rfl, hadd, hnew, ?_, ?_⟩
          · show s.new_index + ((o₁ ++ [p]).length : ℤ) ≤ s.new_index - 1 + (o₁ ++ [p]).length + 1
            omega
          · show s.new_index - 1 + ((w.length + 1 : ℕ) : ℤ) = _
            push_cast
            ring
        · rename_i hngt
          have hlt' : handle < p := by omega
          have hassoc : o₁ ++ p :: w = (o₁ ++ [p]) ++ w := by simp
          have hpw : ∀ y ∈ w, p < y := by
            intro y hy
            exact (List.pairwise_append.mp hsorted).2.2 p (by simp) y hy
          have hmoved : ({ s.put p with last := 0 } : Merge).Holds o₁ (p :: w) := by
            have hold : s.Holds o₁ w := by
              refine ⟨h.old.init, h.new, ?_⟩
              rw [List.append_assoc, List.singleton_append] at hsorted
              exact hsorted.sublist (by simp)
            refine hold.put ?_ (hassoc ▸ hsorted) 0 s.old
            rw [List.length_append, List.length_singleton] at hroom
            omega
          obtain ⟨o', w', hentered⟩ := ih (s := { s.put p with last := 0 }) hlen hmoved
            (by
              show (o₁.length : ℤ) ≤ s.new_index - 1
              rw [List.length_append, List.length_singleton] at hroom
              omega)
            (by
              intro y hy
              rcases List.mem_cons.mp hy with rfl | hy
              · exact hlt'.le
              · exact hle y hy)
            (by
              intro _ y hy
              rcases List.mem_cons.mp hy with rfl | hy
              · exact hlt'
              · exact hlt'.trans (hpw y hy))
            (.inl rfl) (fun heq => absurd heq h0)
            (by
              intro y hy
              rcases List.mem_cons.mp hy with rfl | hy
              · exact le_rfl
              · rcases List.mem_cons.mp hy with rfl | hy
                · exact hlt'.le
                · exact hle y hy)
            (by
              intro x
              rw [List.mem_append, List.mem_append, List.mem_cons, List.mem_cons, or_right_comm,
                or_assoc])
          refine ⟨o', w', hentered.holds, hentered.old, hentered.last, ?_, hentered.le, ?_, ?_⟩
          · rw [← hassoc]
            exact hentered.mem
          · have hroom' := hentered.room
            revert hroom'
            generalize (enter_one handle _ n).new_index = new_index
            intro hroom'
            have hroom' : s.new_index - 1 + (o'.length : ℤ) ≤ new_index + (o₁.length : ℤ) + 1 := hroom'
            rw [List.length_append, List.length_singleton]
            push_cast
            omega
          · have htotal : _ + (w'.length : ℤ) = s.new_index - 1 + ((w.length + 1 : ℕ) : ℤ) :=
              hentered.total
            push_cast at htotal
            omega

/-- The handles of the sorted queue, from the largest to the smallest. -/
theorem Merge.enter_loop_spec {hs : List ℕ} (hsort : hs.Pairwise (· ≥ ·)) (h0 : 0 ∉ hs)
    (h : s.Holds o w) (hold : s.old = o.length) (hroom : o.length + hs.length ≤ s.new_index + 1)
    (hle : ∀ a ∈ hs, ∀ y ∈ w, a ≤ y) (hlt : ∀ a ∈ hs, a ≠ s.last → ∀ y ∈ w, a < y)
    (hlast : s.last = 0 ∨ s.last ∈ o ++ w) :
    ∃ o' w', (hs.foldl (fun s handle => s.enter_one handle s.old) s).Holds o' w' ∧
      (hs.foldl (fun s handle => s.enter_one handle s.old) s).old = o'.length ∧
      (∀ x, x ∈ o' ++ w' ↔ x ∈ o ++ w ∨ x ∈ hs) ∧
      (o'.length : ℤ) ≤ (hs.foldl (fun s handle => s.enter_one handle s.old) s).new_index + 1 ∧
      (hs.foldl (fun s handle => s.enter_one handle s.old) s).new_index + w'.length =
        s.new_index + w.length := by
  induction hs generalizing s o w with
  | nil => exact ⟨o, w, h, hold, by simp, by simpa using hroom, rfl⟩
  | cons a hs ih =>
    obtain ⟨hge, hsort⟩ := List.pairwise_cons.mp hsort
    have ha : a ∈ a :: hs := List.mem_cons_self ..
    rw [List.length_cons] at hroom
    push_cast at hroom
    obtain ⟨o₁, w₁, h₁⟩ := Merge.enter_one_spec s.old hold.symm h (by omega)
      (fun heq => h0 (heq ▸ ha)) (hle a ha) (hlt a ha) hlast
    rw [List.foldl_cons]
    obtain ⟨o', w', hholds, hold', hmem, hroom', htotal⟩ := ih (s := s.enter_one a s.old) hsort
      (fun hz => h0 (List.mem_cons_of_mem _ hz)) h₁.holds h₁.old
      (by
        have := h₁.room
        omega)
      (fun b hb y hy => (hge b hb).trans (h₁.le y hy))
      (fun b hb hne y hy => by
        have hba : b < a := lt_of_le_of_ne (hge b hb) (h₁.last ▸ hne)
        exact hba.trans_le (h₁.le y hy))
      (.inr ((h₁.mem _).mpr (.inr h₁.last)))
    refine ⟨o', w', hholds, hold', ?_, hroom', htotal.trans h₁.total⟩
    intro x
    rw [hmem, h₁.mem, List.mem_cons, or_assoc]

/-- The old members that are left move down to the others. -/
theorem Merge.copy_down_spec (n : ℕ) (hn : o.length = n) (h : s.Holds o w)
    (hroom : (o.length : ℤ) ≤ s.new_index + 1) :
    At (s.copy_down n).data ((s.copy_down n).new_index + 1) (o ++ w) ∧
      (s.copy_down n).new_index = s.new_index - n := by
  induction n generalizing s o w with
  | zero =>
    obtain rfl := List.length_eq_zero_iff.mp hn
    exact ⟨h.new, (sub_zero _).symm⟩
  | succ n ih =>
    obtain ⟨o₁, p, rfl, hlen, hp⟩ := h.split_last hn
    rw [List.length_append, List.length_singleton] at hroom
    push_cast at hroom
    have hsorted := h.sorted
    rw [List.append_assoc, List.singleton_append] at hsorted
    have hold : s.Holds o₁ w := ⟨h.old.init, h.new, hsorted.sublist (by simp)⟩
    have hput : (s.put p).Holds o₁ (p :: w) := hold.put (by omega) hsorted s.last s.old
    have hindex : (s.put p).new_index = s.new_index - 1 := rfl
    obtain ⟨hdata, hnew⟩ := ih hlen hput (by rw [hindex]; omega)
    unfold copy_down
    rw [hp, List.append_assoc, List.singleton_append]
    refine ⟨hdata, ?_⟩
    rw [hnew, hindex]
    push_cast
    ring

/-! ## Taking out those who leave -/

/-- `kept` are the members that stay, `rest` those that have not been looked at, the array ending
at `new_size`; the count is theirs, or the loop has come to the end. -/
structure Removal.Holds (r : Removal) (new_size : ℤ) (kept rest : List ℕ) : Prop where
  front : At r.data 0 kept
  back : At r.data (new_size - rest.length) rest
  sorted : (kept ++ rest).Pairwise (· < ·)
  len : r.rest = rest.length
  index : r.new_index = kept.length
  count : r.count = kept.length + rest.length ∨ rest = [] ∧ r.count = 0
  room : (kept.length : ℤ) ≤ new_size - rest.length

variable {r : Removal} {new_size : ℤ} {kept rest : List ℕ} {p : ℕ}

/-- The first word that has not been looked at stays. -/
theorem Removal.Holds.put (h : r.Holds new_size kept (p :: rest)) (old : ℕ) (hold : old = rest.length) :
    ({ r.put p with rest := old } : Removal).Holds new_size (kept ++ [p]) rest := by
  have hroom := h.room
  have hindex := h.index
  have hrest := h.back.tail
  rw [List.length_cons] at hroom hrest
  push_cast at hroom hrest
  have hstart : new_size - ((rest.length : ℤ) + 1) + 1 = new_size - rest.length := by ring
  rw [hstart] at hrest
  constructor
  · refine At.concat (h.front.update (.inr ?_)) ?_
    · rw [hindex]
      omega
    · show Function.update r.data r.new_index p (0 + kept.length) = p
      rw [hindex, zero_add, Function.update_self]
  · refine hrest.update (.inl ?_)
    rw [hindex]
    omega
  · have hsorted := h.sorted
    rwa [List.append_cons] at hsorted
  · exact hold
  · show r.new_index + 1 = _
    rw [hindex, List.length_append, List.length_singleton]
    push_cast
    rfl
  · refine .inl ?_
    rcases h.count with hcount | ⟨hnil, -⟩
    · show r.count = _
      rw [hcount, List.length_append, List.length_singleton, List.length_cons]
      push_cast
      ring
    · cases hnil
  · rw [List.length_append, List.length_singleton]
    push_cast
    omega

/-- What one handle does: it is no member then, and all that is left is larger. -/
structure Removal.Left (r : Removal) (goes : Bool) (new_size : ℤ) (handle : ℕ)
    (kept rest kept' rest' : List ℕ) : Prop where
  holds : r.Holds new_size kept' rest'
  mem : ∀ x, x ∈ kept' ++ rest' ↔ x ∈ kept ++ rest ∧ x ≠ handle
  lt : ∀ x ∈ kept', x < handle
  stops : goes = false → rest' = []

theorem Removal.leave_one_spec (n : ℕ) (hn : rest.length = n) (h : r.Holds new_size kept rest)
    (hlt : ∀ x ∈ kept, x < handle) :
    ∃ kept' rest', Removal.Left (r.leave_one new_size handle n).1
      (r.leave_one new_size handle n).2 new_size handle kept rest kept' rest' := by
  induction n generalizing r kept rest with
  | zero =>
    obtain rfl := List.length_eq_zero_iff.mp hn
    refine ⟨kept, [], ⟨h.front, h.back, h.sorted, rfl, h.index, .inr ⟨rfl, rfl⟩, h.room⟩, ?_, hlt,
      fun _ => rfl⟩
    intro x
    rw [List.append_nil]
    exact ⟨fun hx => ⟨hx, (hlt x hx).ne⟩, And.left⟩
  | succ n ih =>
    cases rest with
    | nil => cases hn
    | cons p rest =>
      have hlen : rest.length = n := by simpa using hn
      have hp : r.data (new_size - (n + 1)) = p := by
        have hp := h.back.head
        rw [List.length_cons, hlen] at hp
        push_cast at hp
        exact hp
      have hsorted := h.sorted
      have hlarger : ∀ x ∈ rest, p < x := by
        rw [List.pairwise_append] at hsorted
        exact (List.pairwise_cons.mp hsorted.2.1).1
      unfold leave_one
      dsimp only
      rw [hp]
      split
      · rename_i heq
        -- the member leaves
        subst heq
        have hrest := h.back.tail
        have hroom := h.room
        rw [List.length_cons] at hrest hroom
        push_cast at hrest hroom
        have hstart : new_size - ((rest.length : ℤ) + 1) + 1 = new_size - rest.length := by ring
        rw [hstart] at hrest
        refine ⟨kept, rest, ⟨h.front, hrest, hsorted.sublist (by simp), hlen.symm, h.index, .inl ?_,
          by omega⟩, ?_, hlt, fun hgo => by cases hgo⟩
        · rcases h.count with hcount | ⟨hnil, -⟩
          · show r.count - 1 = _
            rw [hcount, List.length_cons]
            push_cast
            ring
          · cases hnil
        · intro x
          simp only [List.mem_append, List.mem_cons]
          constructor
          · rintro (hx | hx)
            · exact ⟨.inl hx, (hlt x hx).ne⟩
            · exact ⟨.inr (.inr hx), (hlarger x hx).ne'⟩
          · rintro ⟨hx | hx | hx, hne⟩
            · exact .inl hx
            · exact absurd hx hne
            · exact .inr hx
      · rename_i hne
        split
        · rename_i hgt
          obtain ⟨kept', rest', hleft⟩ := ih hlen (h.put n hlen.symm)
            (by
              intro x hx
              rcases List.mem_append.mp hx with hx | hx
              · exact hlt x hx
              · rw [List.mem_singleton.mp hx]
                exact hgt)
          refine ⟨kept', rest', hleft.holds, ?_, hleft.lt, hleft.stops⟩
          intro x
          rw [hleft.mem, List.append_assoc, List.singleton_append]
        · rename_i hngt
          refine ⟨kept, p :: rest, ⟨h.front, h.back, h.sorted, hn.symm, h.index, h.count, h.room⟩, ?_,
            hlt, fun hgo => by cases hgo⟩
          intro x
          constructor
          · intro hx
            refine ⟨hx, ?_⟩
            rcases List.mem_append.mp hx with hx | hx
            · exact (hlt x hx).ne
            · have hle : p ≤ x := by
                rcases List.mem_cons.mp hx with rfl | hx
                · exact le_rfl
                · exact (hlarger x hx).le
              omega
          · exact And.left

/-- The handles of the sorted queue, from the smallest to the largest. -/
theorem Removal.leave_loop_spec {ls : List ℕ} (hsort : ls.Pairwise (· ≤ ·))
    (h : r.Holds new_size kept rest) (hlt : ∀ a ∈ ls, ∀ x ∈ kept, x < a) :
    ∃ kept' rest', (r.leave_loop new_size ls).Holds new_size kept' rest' ∧
      ∀ x, x ∈ kept' ++ rest' ↔ x ∈ kept ++ rest ∧ x ∉ ls := by
  induction ls generalizing r kept rest with
  | nil => exact ⟨kept, rest, h, by simp⟩
  | cons a ls ih =>
    obtain ⟨hle, hsort⟩ := List.pairwise_cons.mp hsort
    obtain ⟨kept₁, rest₁, hleft⟩ := Removal.leave_one_spec r.rest h.len.symm h
      (hlt a (List.mem_cons_self ..))
    have hlt₁ : ∀ b ∈ ls, ∀ x ∈ kept₁, x < b := fun b hb x hx =>
      (hleft.lt x hx).trans_le (hle b hb)
    unfold leave_loop
    split
    · obtain ⟨kept', rest', hholds, hmem⟩ := ih hsort hleft.holds hlt₁
      refine ⟨kept', rest', hholds, ?_⟩
      intro x
      rw [hmem, hleft.mem, List.mem_cons, and_assoc, not_or]
    · rename_i hstop
      -- the array is at its end, and all members are smaller than the handles to come
      obtain rfl := hleft.stops (by simpa using hstop)
      refine ⟨kept₁, [], hleft.holds, ?_⟩
      intro x
      rw [hleft.mem, List.mem_cons]
      constructor
      · rintro ⟨hx, hne⟩
        have hx₁ : x ∈ kept₁ := by simpa using (hleft.mem x).mpr ⟨hx, hne⟩
        refine ⟨hx, ?_⟩
        rintro (heq | hls)
        · exact hne heq
        · exact Nat.lt_irrefl x (hlt₁ x hls x hx₁)
      · rintro ⟨hx, hne⟩
        exact ⟨hx, fun heq => hne (.inl heq)⟩

theorem Removal.copy_up_spec (n : ℕ) (hn : rest.length = n) (h : r.Holds new_size kept rest) :
    At (r.copy_up new_size n).data 0 (kept ++ rest) ∧
      (r.copy_up new_size n).new_index = (kept ++ rest).length := by
  induction n generalizing r kept rest with
  | zero =>
    obtain rfl := List.length_eq_zero_iff.mp hn
    rw [List.append_nil]
    exact ⟨h.front, h.index⟩
  | succ n ih =>
    cases rest with
    | nil => cases hn
    | cons p rest =>
      have hlen : rest.length = n := by simpa using hn
      have hp : r.data (new_size - r.rest) = p := by
        rw [h.len]
        exact h.back.head
      unfold copy_up
      rw [hp]
      have hrest : r.rest - 1 = rest.length := by
        rw [h.len]
        rfl
      obtain ⟨hdata, hindex⟩ := ih hlen (h.put (r.rest - 1) hrest)
      rw [List.append_assoc, List.singleton_append] at hdata hindex
      exact ⟨hdata, hindex⟩

/-! ## Combining -/

/-- A handle of a service of the node `harbor`; others do not reach a group. -/
def Own (harbor handle : ℕ) : Prop := handle / 2 ^ 24 = harbor ∧ handle ≠ 0

variable {harbor : ℕ}

/-- The handles of one node are so close that the comparison is right. -/
theorem compar_uint_le {a b : ℕ} (ha : Own harbor a) (hb : Own harbor b) :
    compar_uint a b ≤ 0 ↔ a ≤ b := by
  have hclose : a / 2 ^ 24 = b / 2 ^ 24 := ha.1.trans hb.1.symm
  unfold compar_uint signed
  rcases Nat.lt_or_ge a b with hlt | hge
  · have hmod : (a + 2 ^ 32 - b) % 2 ^ 32 = a + 2 ^ 32 - b := Nat.mod_eq_of_lt (by omega)
    rw [hmod, if_neg (by omega)]
    omega
  · have hmod : (a + 2 ^ 32 - b) % 2 ^ 32 = a - b := by
      rw [show a + 2 ^ 32 - b = a - b + 2 ^ 32 by omega, Nat.add_mod_right,
        Nat.mod_eq_of_lt (by omega)]
    rw [hmod, if_pos (by omega)]
    omega

theorem qsort_spec (h : ∀ a ∈ l, Own harbor a) :
    (qsort l).Pairwise (· ≤ ·) ∧ (∀ a, a ∈ qsort l ↔ a ∈ l) ∧ (qsort l).length = l.length := by
  have hsame : qsort l = l.mergeSort fun a b => decide (a ≤ b) := by
    have hmap := List.map_mergeSort (r := fun a b => decide (compar_uint a b ≤ 0))
      (s := fun a b => decide (a ≤ b)) (f := id) (l := l)
      fun a ha b hb => decide_eq_decide.mpr (compar_uint_le (h a ha) (h b hb))
    rwa [List.map_id, List.map_id] at hmap
  have hsorted : (l.mergeSort fun a b => decide (a ≤ b)).Pairwise fun a b => decide (a ≤ b) = true :=
    List.pairwise_mergeSort
      (fun a b c hab hbc => by
        simp only [decide_eq_true_eq] at hab hbc ⊢
        exact hab.trans hbc)
      (fun a b => by simpa using Nat.le_total a b) l
  refine ⟨?_, fun a => List.mem_mergeSort, List.length_mergeSort _⟩
  rw [hsame]
  exact hsorted.imp fun hab => by simpa using hab

/-- The members of a group. -/
structure Group.Has (g : Group) (m : List ℕ) : Prop where
  words : At g.data 0 m
  number : g.number = m.length
  sorted : m.Pairwise (· < ·)

theorem Group.Has.members {g : Group} {m : List ℕ} (h : g.Has m) : g.members = m := by
  unfold Group.members
  rw [h.number]
  exact h.words.eq_map

/-- The merged members stand at the end of the array behind the first part. -/
theorem Group.Has.combine_enter {g : Group} {m : List ℕ} (h : g.Has m)
    (henter : ∀ a ∈ g.enter_queue, Own harbor a) :
    ∃ m', At g.combine_enter.data (g.combine_enter.new_index + 1) m' ∧ m'.Pairwise (· < ·) ∧
      ((g.number + g.enter_queue.length : ℕ) : ℤ) = g.combine_enter.new_index + 1 + m'.length ∧
      0 ≤ g.combine_enter.new_index + 1 ∧ ∀ x, x ∈ m' ↔ x ∈ m ∨ x ∈ g.enter_queue := by
  obtain ⟨hsortE, hmemE, hlenE⟩ := qsort_spec henter
  have hstart : (⟨g.data, g.number, (g.number + g.enter_queue.length : ℕ) - 1, 0⟩ : Merge).Holds m [] :=
    ⟨h.words, .nil, by simpa using h.sorted⟩
  obtain ⟨o, w, hholds, hold, hmem, hroom, htotal⟩ := Merge.enter_loop_spec
    (List.pairwise_reverse.mpr hsortE)
    (by
      rw [List.mem_reverse, hmemE]
      exact fun hz => (henter 0 hz).2 rfl)
    hstart h.number
    (by
      rw [List.length_reverse, hlenE, h.number]
      push_cast
      omega)
    (fun _ _ y hy => (List.not_mem_nil hy).elim) (fun _ _ _ y hy => (List.not_mem_nil hy).elim)
    (.inl rfl)
  obtain ⟨hdown, hindex⟩ := Merge.copy_down_spec _ hold.symm hholds hroom
  change At g.combine_enter.data (g.combine_enter.new_index + 1) (o ++ w) at hdown
  have hnew : g.combine_enter.new_index = _ - ((_ : ℕ) : ℤ) := hindex
  rw [hold] at hnew
  rw [List.length_nil] at htotal
  dsimp only at htotal
  refine ⟨o ++ w, hdown, hholds.sorted, ?_, ?_, fun x => ?_⟩
  · rw [hnew, List.length_append]
    push_cast at htotal ⊢
    omega
  · rw [hnew]
    omega
  · rw [hmem, List.append_nil, List.mem_reverse, hmemE]

/-- Where the second part of `combine_queue` starts. -/
def Merge.removal (s : Merge) (new_size : ℤ) : Removal :=
  ⟨s.data, (new_size - (s.new_index + 1)).toNat, 0, new_size - (s.new_index + 1)⟩

theorem Merge.removal_holds {m : List ℕ} (hwords : At s.data (s.new_index + 1) m)
    (hsorted : m.Pairwise (· < ·)) (hsize : new_size = s.new_index + 1 + m.length)
    (hfront : 0 ≤ s.new_index + 1) : (s.removal new_size).Holds new_size [] m := by
  have hcount : new_size - (s.new_index + 1) = m.length := by omega
  have hback : new_size - m.length = s.new_index + 1 := by omega
  refine ⟨.nil, ?_, hsorted, ?_, rfl, .inl ?_, ?_⟩
  · rw [hback]
    exact hwords
  · show (new_size - (s.new_index + 1)).toNat = m.length
    rw [hcount]
    rfl
  · show new_size - (s.new_index + 1) = _
    rw [hcount]
    simp
  · rw [hback]
    simpa using hfront

/-- The last loop moves all that is left. -/
theorem Removal.Holds.left (h : r.Holds new_size kept rest) :
    (r.count - r.new_index).toNat = rest.length := by
  rw [h.index]
  rcases h.count with hc | ⟨rfl, hc⟩
  · rw [hc]
    omega
  · rw [hc, List.length_nil]
    omega

/-- The members behind `combine_queue`: those who were there or entered, and did not leave. -/
theorem Group.Has.combine_queue {g : Group} {m : List ℕ} (h : g.Has m)
    (henter : ∀ a ∈ g.enter_queue, Own harbor a) (hleave : ∀ a ∈ g.leave_queue, Own harbor a) :
    ∃ m', g.combine_queue.Has m' ∧
      ∀ x, x ∈ m' ↔ (x ∈ m ∨ x ∈ g.enter_queue) ∧ x ∉ g.leave_queue := by
  obtain ⟨m₁, hwords, hsorted, hsize, hfront, hmem⟩ := h.combine_enter henter
  obtain ⟨hsortL, hmemL, -⟩ := qsort_spec hleave
  obtain ⟨kept, rest, hleft, hmem'⟩ := Removal.leave_loop_spec hsortL
    (Merge.removal_holds hwords hsorted hsize hfront) (fun _ _ x hx => (List.not_mem_nil hx).elim)
  obtain ⟨hdata, hindex⟩ := Removal.copy_up_spec rest.length rfl hleft
  rw [← hleft.left] at hdata hindex
  refine ⟨kept ++ rest, ⟨hdata, ?_, hleft.sorted⟩, fun x => ?_⟩
  · exact congrArg Int.toNat hindex
  · rw [hmem', List.nil_append, hmem, hmemL]

end DnServer.Skynet.Multicast
