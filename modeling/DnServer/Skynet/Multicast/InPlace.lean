import DnServer.Lib.InPlace
import DnServer.Skynet.Multicast.Group

/-!
# The merge works in place

Both passes of `combine_queue` put their result into the array they read. The first
goes down: it writes above what is left of the old members. The second goes up through
the merged ones and writes below. Beside each loop stands the list of its reads and
writes, which turn the array into what the loop makes of it.
-/

namespace DnServer.Skynet.Multicast

open DnServer.Lib DnServer.Lib.Access

/-! ## The accesses -/

namespace Merge

/-- The accesses of `enter_one`. -/
def enter_one_trace (handle : ℕ) (s : Merge) : ℕ → List (Access ℕ)
  | 0 => if handle = s.last then [] else [.write s.new_index handle]
  | old + 1 =>
    if handle = s.last then []
    else
      let p := s.data old
      if handle = p then [.read old p]
      else if handle > p then [.read old p, .write s.new_index handle]
      else
        .read old p :: .read old p :: .write s.new_index p ::
          enter_one_trace handle { s.put p with last := 0 } old

/-- The accesses of the first loop. -/
def enter_trace : Merge → List ℕ → List (Access ℕ)
  | _, [] => []
  | s, handle :: hs =>
    s.enter_one_trace handle s.old ++ enter_trace (s.enter_one handle s.old) hs

/-- The accesses of `copy_down`. -/
def copy_down_trace (s : Merge) : ℕ → List (Access ℕ)
  | 0 => []
  | old + 1 =>
    .read old (s.data old) :: .write s.new_index (s.data old) ::
      copy_down_trace (s.put (s.data old)) old

end Merge

namespace Removal

/-- The accesses of `leave_one`. -/
def leave_one_trace (new_size : ℤ) (handle : ℕ) (r : Removal) : ℕ → List (Access ℕ)
  | 0 => []
  | rest + 1 =>
    let i := new_size - (rest + 1)
    let p := r.data i
    if handle = p then [.read i p]
    else if handle > p then
      .read i p :: .read i p :: .write r.new_index p ::
        leave_one_trace new_size handle { r.put p with rest := rest } rest
    else [.read i p]

/-- The accesses of the second loop. -/
def leave_trace (new_size : ℤ) : Removal → List ℕ → List (Access ℕ)
  | _, [] => []
  | r, handle :: l =>
    r.leave_one_trace new_size handle r.rest ++
      if (r.leave_one new_size handle r.rest).2 then
        leave_trace new_size (r.leave_one new_size handle r.rest).1 l
      else []

/-- The accesses of `copy_up`. -/
def copy_up_trace (new_size : ℤ) (r : Removal) : ℕ → List (Access ℕ)
  | 0 => []
  | n + 1 =>
    let i := new_size - r.rest
    .read i (r.data i) :: .write r.new_index (r.data i) ::
      copy_up_trace new_size { r.put (r.data i) with rest := r.rest - 1 } n

end Removal

/-! ## What the accesses do -/

section

variable {handle n : ℕ} {new_size : ℤ}

theorem Merge.enter_one_plays (s : Merge) :
    Plays s.data (s.enter_one_trace handle n) (s.enter_one handle n).data := by
  induction n generalizing s with
  | zero =>
    unfold enter_one_trace enter_one
    split
    · rfl
    · rfl
  | succ n ih =>
    unfold enter_one_trace enter_one
    dsimp only
    split
    · rfl
    · split
      · exact ⟨rfl, rfl⟩
      · split
        · exact ⟨rfl, rfl⟩
        · exact ⟨rfl, rfl, ih { s.put (s.data n) with last := 0 }⟩

theorem Merge.enter_plays (hs : List ℕ) (s : Merge) :
    Plays s.data (s.enter_trace hs)
      (hs.foldl (fun s handle => s.enter_one handle s.old) s).data := by
  induction hs generalizing s with
  | nil => rfl
  | cons handle hs ih => exact s.enter_one_plays.append (ih _)

theorem Merge.copy_down_plays (s : Merge) :
    Plays s.data (s.copy_down_trace n) (s.copy_down n).data := by
  induction n generalizing s with
  | zero => rfl
  | succ n ih => exact ⟨rfl, ih (s.put (s.data n))⟩

theorem Removal.leave_one_plays (r : Removal) :
    Plays r.data (r.leave_one_trace new_size handle n) (r.leave_one new_size handle n).1.data := by
  induction n generalizing r with
  | zero => rfl
  | succ n ih =>
    unfold leave_one_trace leave_one
    dsimp only
    split
    · exact ⟨rfl, rfl⟩
    · split
      · exact ⟨rfl, rfl, ih { r.put (r.data (new_size - (n + 1))) with rest := n }⟩
      · exact ⟨rfl, rfl⟩

theorem Removal.leave_plays (l : List ℕ) (r : Removal) :
    Plays r.data (r.leave_trace new_size l) (r.leave_loop new_size l).data := by
  induction l generalizing r with
  | nil => rfl
  | cons handle l ih =>
    refine r.leave_one_plays.append ?_
    unfold leave_loop
    split
    · exact ih _
    · rfl

theorem Removal.copy_up_plays (r : Removal) :
    Plays r.data (r.copy_up_trace new_size n) (r.copy_up new_size n).data := by
  induction n generalizing r with
  | zero => rfl
  | succ n ih => exact ⟨rfl, ih { r.put (r.data (new_size - r.rest)) with rest := r.rest - 1 }⟩

/-! ## The first pass -/

/-- How far the cursors of the first loop go for one handle. -/
theorem Merge.enter_one_cursors (s : Merge) (handle n : ℕ) :
    (s.enter_one handle n).old ≤ n ∧ (s.enter_one handle n).new_index ≤ s.new_index ∧
      s.new_index + (s.enter_one handle n).old ≤ (s.enter_one handle n).new_index + n + 1 := by
  induction n generalizing s with
  | zero =>
    unfold enter_one put
    split
    · dsimp only
      omega
    · dsimp only
      omega
  | succ n ih =>
    unfold enter_one
    dsimp only
    split
    · dsimp only
      omega
    · split
      · dsimp only
        omega
      · split
        · unfold put
          dsimp only
          omega
        · have hnext := ih { s.put (s.data n) with last := 0 }
          revert hnext
          generalize enter_one handle _ n = t
          rintro ⟨hold, hindex, hroom⟩
          have hindex : t.new_index ≤ s.new_index - 1 := hindex
          have hroom : s.new_index - 1 + t.old ≤ t.new_index + n + 1 := hroom
          push_cast
          omega

variable {R W input : ℤ → Prop} {t : List (Access ℕ)}

theorem Merge.enter_cursors (hs : List ℕ) (s : Merge)
    (hroom : (s.old : ℤ) + hs.length ≤ s.new_index + 1) :
    ((hs.foldl (fun s handle => s.enter_one handle s.old) s).old : ℤ) ≤
        (hs.foldl (fun s handle => s.enter_one handle s.old) s).new_index + 1 ∧
      (hs.foldl (fun s handle => s.enter_one handle s.old) s).new_index ≤ s.new_index := by
  induction hs generalizing s with
  | nil => exact ⟨by simpa using hroom, le_rfl⟩
  | cons handle hs ih =>
    rw [List.length_cons] at hroom
    push_cast at hroom
    obtain ⟨-, hindex, hcursors⟩ := s.enter_one_cursors handle s.old
    obtain ⟨hold, hless⟩ := ih (s.enter_one handle s.old) (by omega)
    exact ⟨hold, hless.trans hindex⟩

/-- A handle is merged in place, whatever follows in place. -/
theorem Merge.enter_one_in_place (s : Merge) (h : Downward input n R W)
    (hroom : (n : ℤ) ≤ s.new_index)
    (ht : ∀ R W, Downward input (s.enter_one handle n).old R W → InPlace input R W t) :
    InPlace input R W (s.enter_one_trace handle n ++ t) := by
  induction n generalizing s R W with
  | zero =>
    revert ht
    unfold enter_one_trace enter_one
    split
    · exact fun ht => ht R W h
    · intro ht
      obtain ⟨hread, hnext⟩ := h.put hroom
      exact ⟨hread, ht _ _ hnext⟩
  | succ n ih =>
    have hnext := h
    rw [Nat.cast_succ] at hnext
    obtain ⟨hfree, hbelow⟩ := hnext.next
    revert ht
    unfold enter_one_trace enter_one
    dsimp only
    split
    · exact fun ht => ht R W h
    · split
      · exact fun ht => ⟨hfree, ht _ _ (h.again n)⟩
      · split
        · intro ht
          obtain ⟨hread, hput⟩ := (h.again n).put hroom
          exact ⟨hfree, hread, ht _ _ hput⟩
        · intro ht
          obtain ⟨hread, hput⟩ := (hbelow.again n).put (i := s.new_index) (by omega)
          refine ⟨hfree, hfree, hread, ih _ hput ?_ ht⟩
          show (n : ℤ) ≤ s.new_index - 1
          push_cast at hroom
          omega

theorem Merge.enter_in_place (hs : List ℕ) (s : Merge) (h : Downward input s.old R W)
    (hroom : (s.old : ℤ) + hs.length ≤ s.new_index + 1)
    (ht : ∀ R W, Downward input (hs.foldl (fun s handle => s.enter_one handle s.old) s).old R W →
      InPlace input R W t) : InPlace input R W (s.enter_trace hs ++ t) := by
  induction hs generalizing s R W with
  | nil => exact ht R W h
  | cons handle hs ih =>
    rw [List.length_cons] at hroom
    push_cast at hroom
    obtain ⟨-, -, hcursors⟩ := s.enter_one_cursors handle s.old
    rw [enter_trace, List.append_assoc]
    refine s.enter_one_in_place h (by omega) fun R W h' => ?_
    exact ih _ h' (by omega) ht

theorem Merge.copy_down_in_place (s : Merge) (h : Downward input n R W)
    (hroom : (n : ℤ) ≤ s.new_index + 1) : InPlace input R W (s.copy_down_trace n) := by
  induction n generalizing s R W with
  | zero => trivial
  | succ n ih =>
    rw [Nat.cast_succ] at h
    push_cast at hroom
    obtain ⟨hfree, hbelow⟩ := h.next
    obtain ⟨hread, hput⟩ := hbelow.put (i := s.new_index) (by omega)
    refine ⟨hfree, hread, ih _ hput ?_⟩
    show (n : ℤ) ≤ s.new_index - 1 + 1
    omega

/-! ## The second pass -/

/-- How far the cursors of the second loop go for one handle. -/
theorem Removal.leave_one_cursors (r : Removal) (handle : ℕ) (hroom : r.new_index ≤ new_size - n) :
    (r.leave_one new_size handle n).1.rest ≤ n ∧
      r.new_index ≤ (r.leave_one new_size handle n).1.new_index ∧
      (r.leave_one new_size handle n).1.new_index ≤
        new_size - (r.leave_one new_size handle n).1.rest := by
  induction n generalizing r with
  | zero => exact ⟨le_rfl, le_rfl, hroom⟩
  | succ n ih =>
    push_cast at hroom
    unfold leave_one
    dsimp only
    split
    · dsimp only
      omega
    · split
      · have hnext := ih { r.put (r.data (new_size - (n + 1))) with rest := n } (by
          show r.new_index + 1 ≤ new_size - n
          omega)
        revert hnext
        generalize leave_one new_size handle _ n = q
        rintro ⟨hrest, hindex, hroom'⟩
        have hindex : r.new_index + 1 ≤ q.1.new_index := hindex
        omega
      · dsimp only
        push_cast
        omega

/-- A handle is taken out in place, whatever follows in place. -/
theorem Removal.leave_one_in_place (r : Removal) (h : Upward input (new_size - n) R W)
    (hroom : r.new_index ≤ new_size - n)
    (ht : ∀ R W, Upward input (new_size - (r.leave_one new_size handle n).1.rest) R W →
      InPlace input R W t) :
    InPlace input R W (r.leave_one_trace new_size handle n ++ t) := by
  induction n generalizing r R W with
  | zero => exact ht R W h
  | succ n ih =>
    have hnext := h
    push_cast at hroom hnext
    obtain ⟨hfree, habove⟩ := hnext.next
    have hstart : new_size - ((n : ℤ) + 1) + 1 = new_size - n := by ring
    rw [hstart] at habove
    revert ht
    unfold leave_one_trace leave_one
    dsimp only
    split
    · exact fun ht => ⟨hfree, ht _ _ habove⟩
    · split
      · intro ht
        obtain ⟨hread, hput⟩ :=
          (habove.again (new_size - (n + 1))).put (i := r.new_index) (by omega)
        refine ⟨hfree, hfree, hread, ih _ hput ?_ ht⟩
        show r.new_index + 1 ≤ new_size - n
        omega
      · exact fun ht => ⟨hfree, ht _ _ (h.again _)⟩

theorem Removal.leave_in_place (l : List ℕ) (r : Removal) (h : Upward input (new_size - r.rest) R W)
    (hroom : r.new_index ≤ new_size - r.rest)
    (ht : ∀ R W, Upward input (new_size - (r.leave_loop new_size l).rest) R W →
      InPlace input R W t) : InPlace input R W (r.leave_trace new_size l ++ t) := by
  induction l generalizing r R W with
  | nil => exact ht R W h
  | cons handle l ih =>
    obtain ⟨-, -, hcursors⟩ := r.leave_one_cursors handle hroom
    rw [leave_trace, List.append_assoc]
    refine r.leave_one_in_place h hroom fun R W h' => ?_
    revert ht
    unfold leave_loop
    split
    · exact ih _ h' hcursors
    · exact fun ht => ht R W h'

theorem Removal.copy_up_in_place (r : Removal) (h : Upward input (new_size - r.rest) R W)
    (hn : n ≤ r.rest) (hroom : r.new_index ≤ new_size - r.rest) :
    InPlace input R W (r.copy_up_trace new_size n) := by
  induction n generalizing r R W with
  | zero => trivial
  | succ n ih =>
    obtain ⟨rest, hrest⟩ : ∃ rest, r.rest = rest + 1 := ⟨r.rest - 1, by omega⟩
    have hstart : new_size - (r.rest : ℤ) + 1 = new_size - (r.rest - 1 : ℕ) := by
      rw [hrest]
      push_cast
      ring
    obtain ⟨hfree, habove⟩ := h.next
    obtain ⟨hread, hput⟩ := habove.put (i := r.new_index) (by omega)
    rw [hstart] at hput
    refine ⟨hfree, hread, ih { r.put (r.data (new_size - r.rest)) with rest := r.rest - 1 } hput
      (by show n ≤ r.rest - 1; omega) ?_⟩
    show r.new_index + 1 ≤ new_size - (r.rest - 1 : ℕ)
    omega

/-! ## Inside the array -/

/-- The accesses are inside an array of `new_size` words. -/
def Within (new_size : ℤ) (t : List (Access ℕ)) : Prop := ∀ a ∈ t, 0 ≤ a.index ∧ a.index < new_size

variable {t' : List (Access ℕ)} {i : ℤ} {v : ℕ}

theorem Within.nil : Within new_size [] := fun _ ha => absurd ha List.not_mem_nil

theorem Within.read (h : Within new_size t) (h0 : 0 ≤ i) (hi : i < new_size) :
    Within new_size (.read i v :: t) :=
  List.forall_mem_cons.mpr ⟨⟨h0, hi⟩, h⟩

theorem Within.write (h : Within new_size t) (h0 : 0 ≤ i) (hi : i < new_size) :
    Within new_size (.write i v :: t) :=
  List.forall_mem_cons.mpr ⟨⟨h0, hi⟩, h⟩

theorem Within.append (h : Within new_size t) (h' : Within new_size t') :
    Within new_size (t ++ t') := fun a ha => (List.mem_append.mp ha).elim (h a) (h' a)

theorem Merge.enter_one_within (s : Merge) (hroom : (n : ℤ) ≤ s.new_index)
    (hsize : s.new_index < new_size) : Within new_size (s.enter_one_trace handle n) := by
  induction n generalizing s with
  | zero =>
    unfold enter_one_trace
    split
    · exact .nil
    · exact Within.nil.write (by omega) hsize
  | succ n ih =>
    push_cast at hroom
    unfold enter_one_trace
    dsimp only
    split
    · exact .nil
    · split
      · exact Within.nil.read (by omega) (by omega)
      · split
        · exact (Within.nil.write (by omega) hsize).read (by omega) (by omega)
        · have hrest := ih { s.put (s.data n) with last := 0 }
            (by show (n : ℤ) ≤ s.new_index - 1; omega)
            (by show s.new_index - 1 < new_size; omega)
          exact ((hrest.write (by omega) hsize).read (by omega) (by omega)).read (by omega)
            (by omega)

theorem Merge.enter_within (hs : List ℕ) (s : Merge)
    (hroom : (s.old : ℤ) + hs.length ≤ s.new_index + 1) (hsize : s.new_index < new_size) :
    Within new_size (s.enter_trace hs) := by
  induction hs generalizing s with
  | nil => exact .nil
  | cons handle hs ih =>
    rw [List.length_cons] at hroom
    push_cast at hroom
    obtain ⟨-, hindex, hcursors⟩ := s.enter_one_cursors handle s.old
    exact (s.enter_one_within (by omega) hsize).append (ih _ (by omega) (by omega))

theorem Merge.copy_down_within (s : Merge) (hroom : (n : ℤ) ≤ s.new_index + 1)
    (hsize : s.new_index < new_size) : Within new_size (s.copy_down_trace n) := by
  induction n generalizing s with
  | zero => exact .nil
  | succ n ih =>
    push_cast at hroom
    have hrest := ih (s.put (s.data n)) (by show (n : ℤ) ≤ s.new_index - 1 + 1; omega)
      (by show s.new_index - 1 < new_size; omega)
    exact (hrest.write (by omega) hsize).read (by omega) (by omega)

theorem Removal.leave_one_within (r : Removal) (h0 : 0 ≤ r.new_index)
    (hroom : r.new_index ≤ new_size - n) :
    Within new_size (r.leave_one_trace new_size handle n) := by
  induction n generalizing r with
  | zero => exact .nil
  | succ n ih =>
    push_cast at hroom
    unfold leave_one_trace
    dsimp only
    split
    · exact Within.nil.read (by omega) (by omega)
    · split
      · have hrest := ih { r.put (r.data (new_size - (n + 1))) with rest := n }
          (by show 0 ≤ r.new_index + 1; omega) (by show r.new_index + 1 ≤ new_size - n; omega)
        exact ((hrest.write h0 (by omega)).read (by omega) (by omega)).read (by omega) (by omega)
      · exact Within.nil.read (by omega) (by omega)

theorem Removal.leave_within (l : List ℕ) (r : Removal) (h0 : 0 ≤ r.new_index)
    (hroom : r.new_index ≤ new_size - r.rest) : Within new_size (r.leave_trace new_size l) := by
  induction l generalizing r with
  | nil => exact .nil
  | cons handle l ih =>
    obtain ⟨-, hindex, hcursors⟩ := r.leave_one_cursors handle hroom
    refine (r.leave_one_within h0 hroom).append ?_
    split
    · exact ih _ (h0.trans hindex) hcursors
    · exact .nil

theorem Removal.copy_up_within (r : Removal) (hn : n ≤ r.rest) (h0 : 0 ≤ r.new_index)
    (hroom : r.new_index ≤ new_size - r.rest) : Within new_size (r.copy_up_trace new_size n) := by
  induction n generalizing r with
  | zero => exact .nil
  | succ n ih =>
    obtain ⟨rest, hrest⟩ : ∃ rest, r.rest = rest + 1 := ⟨r.rest - 1, by omega⟩
    have hnext := ih { r.put (r.data (new_size - r.rest)) with rest := r.rest - 1 }
      (by show n ≤ r.rest - 1; omega) (by show 0 ≤ r.new_index + 1; omega)
      (by show r.new_index + 1 ≤ new_size - (r.rest - 1 : ℕ); omega)
    exact (hnext.write h0 (by omega)).read (by omega) (by omega)

end

/-! ## Both passes -/

namespace Group

variable {harbor : ℕ}

/-- The size of the array that is merged in. -/
def new_size (g : Group) : ℤ := (g.number + g.enter_queue.length : ℕ)

/-- The accesses of the first part of `combine_queue`. -/
def enter_trace (g : Group) : List (Access ℕ) :=
  let s : Merge := ⟨g.data, g.number, g.new_size - 1, 0⟩
  let t := (qsort g.enter_queue).reverse.foldl (fun s handle => s.enter_one handle s.old) s
  s.enter_trace (qsort g.enter_queue).reverse ++ t.copy_down_trace t.old

/-- The accesses of the second part. -/
def leave_trace (g : Group) : List (Access ℕ) :=
  let r := g.combine_enter.removal g.new_size
  let r' := r.leave_loop g.new_size (qsort g.leave_queue)
  r.leave_trace g.new_size (qsort g.leave_queue) ++
    r'.copy_up_trace g.new_size (r'.count - r'.new_index).toNat

theorem combine_plays (g : Group) :
    Plays g.data g.enter_trace g.combine_enter.data ∧
      Plays g.combine_enter.data g.leave_trace g.combine_queue.data :=
  ⟨(Merge.enter_plays (qsort g.enter_queue).reverse ⟨g.data, g.number, g.new_size - 1, 0⟩).append
      (Merge.copy_down_plays _),
    (Removal.leave_plays _ (g.combine_enter.removal g.new_size)).append (Removal.copy_up_plays _)⟩

theorem enter_trace_in_place (g : Group) :
    InPlace (fun i => 0 ≤ i ∧ i < g.number) (fun _ => False) (fun _ => False) g.enter_trace ∧
      Within g.new_size g.enter_trace := by
  have hstart : Downward (fun i => 0 ≤ i ∧ i < (g.number : ℤ)) g.number (fun _ => False)
      fun _ => False := ⟨fun i hi hin => absurd hin.2 (by omega), fun i hi => hi.elim⟩
  have hroom : (g.number : ℤ) + (qsort g.enter_queue).reverse.length ≤ g.new_size - 1 + 1 := by
    rw [List.length_reverse, qsort, List.length_mergeSort, new_size]
    push_cast
    omega
  obtain ⟨hold, hindex⟩ := Merge.enter_cursors _ ⟨g.data, g.number, g.new_size - 1, 0⟩ hroom
  have hlast := (sub_one_lt g.new_size)
  constructor
  · exact Merge.enter_in_place _ _ hstart hroom fun R W h => Merge.copy_down_in_place _ h hold
  · exact (Merge.enter_within _ _ hroom hlast).append
      (Merge.copy_down_within _ hold (hindex.trans_lt hlast))

/-- **The merge.** For strictly sorted members and queues of handles of one node in any order
`combine_queue` leaves the members that were there or entered and did not leave, strictly sorted.
Both passes work in place: the accesses that make them up stay in the array, no element of the old
members in the first pass, or of the merged ones in the second, is overwritten before it has been
read, and none is read when it has been overwritten. -/
theorem combine_queue_in_place {g : Group} {m : List ℕ} (h : g.Has m)
    (henter : ∀ a ∈ g.enter_queue, Own harbor a) (hleave : ∀ a ∈ g.leave_queue, Own harbor a) :
    (g.combine_queue.members.Pairwise (· < ·) ∧ ∀ x, x ∈ g.combine_queue.members ↔
      (x ∈ g.members ∨ x ∈ g.enter_queue) ∧ x ∉ g.leave_queue) ∧
    (Plays g.data g.enter_trace g.combine_enter.data ∧
      InPlace (fun i => 0 ≤ i ∧ i < g.number) (fun _ => False) (fun _ => False) g.enter_trace ∧
      Within g.new_size g.enter_trace) ∧
    (Plays g.combine_enter.data g.leave_trace g.combine_queue.data ∧
      InPlace (fun i => g.combine_enter.new_index + 1 ≤ i ∧ i < g.new_size)
        (fun _ => False) (fun _ => False) g.leave_trace ∧
      Within g.new_size g.leave_trace) := by
  obtain ⟨m', hhas, hmem⟩ := h.combine_queue henter hleave
  refine ⟨?_, ⟨g.combine_plays.1, g.enter_trace_in_place⟩, g.combine_plays.2, ?_⟩
  · rw [hhas.members, h.members]
    exact ⟨hhas.sorted, hmem⟩
  obtain ⟨m₁, hwords, hsorted, hsize, hfront, -⟩ := h.combine_enter henter
  have hsize : g.new_size = g.combine_enter.new_index + 1 + m₁.length := hsize
  have hremoval := Merge.removal_holds hwords hsorted hsize hfront
  obtain ⟨hsortL, -, -⟩ := qsort_spec hleave
  obtain ⟨kept, rest, hleft, -⟩ := Removal.leave_loop_spec hsortL hremoval
    fun _ _ x hx => (List.not_mem_nil hx).elim
  have hcursor : g.new_size - (g.combine_enter.removal g.new_size).rest =
      g.combine_enter.new_index + 1 := by
    rw [hremoval.len]
    omega
  have hstart : Upward (fun i => g.combine_enter.new_index + 1 ≤ i ∧ i < g.new_size)
      (g.new_size - (g.combine_enter.removal g.new_size).rest) (fun _ => False) fun _ => False :=
    ⟨fun i hi hin => absurd hin.1 (by omega), fun i hi => hi.elim⟩
  have hroom : (g.combine_enter.removal g.new_size).new_index ≤
      g.new_size - (g.combine_enter.removal g.new_size).rest := hfront.trans_eq hcursor.symm
  have hleftroom := hleft.room
  rw [← hleft.index, ← hleft.len] at hleftroom
  have hleftpos : 0 ≤ ((g.combine_enter.removal g.new_size).leave_loop g.new_size
      (qsort g.leave_queue)).new_index := by
    rw [hleft.index]
    exact Int.natCast_nonneg _
  have hall := hleft.left.trans hleft.len.symm
  constructor
  · exact Removal.leave_in_place _ _ hstart hroom fun R W h =>
      Removal.copy_up_in_place _ h hall.le hleftroom
  · exact (Removal.leave_within _ _ le_rfl hroom).append
      (Removal.copy_up_within _ hall.le hleftpos hleftroom)

/-- Members 1 and 4; 5, 3 and 5 enter and 3 leaves. -/
theorem combine_queue_in_place_entered :
    (⟨[5, 3, 5], [3], 2, fun i => if i = 0 then 1 else 4⟩ : Group).combine_queue.members.Pairwise
      (· < ·) := by
  have hmembers : (⟨[5, 3, 5], [3], 2, fun i => if i = 0 then 1 else 4⟩ : Group).Has [1, 4] :=
    ⟨.cons rfl (.cons rfl .nil), rfl, by decide⟩
  have henter : ∀ a ∈ [5, 3, 5], Own 0 a := by simp [Own]
  have hleave : ∀ a ∈ [3], Own 0 a := by simp [Own]
  exact (combine_queue_in_place hmembers henter hleave).1.1

end Group

end DnServer.Skynet.Multicast
