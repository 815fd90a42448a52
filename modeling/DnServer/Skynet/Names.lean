import DnServer.Lib.Bisect
import DnServer.Lib.CString
import DnServer.Skynet.Reserved

/-!
# The names of the services

`skynet_handle.c` keeps the local names in an array that is sorted by `strcmp`. A name
is found and its place is found by two binary searches, an insertion moves the names
behind it, into an array twice as large when there is no room, and a retirement closes
the gaps its names leave. A read of memory that was not written, or outside of an
array, is `none`.
-/

namespace DnServer.Skynet

open DnServer.Lib

/-- `name`, `name_count` and `name_cap` of `struct handle_storage`. -/
structure NameArray where
  name_cap : ℕ
  name_count : ℕ
  name : ℕ → Option HandleName

namespace NameArray

/-- As `skynet_handle_init` leaves it. -/
def init : NameArray := ⟨2, 0, fun _ => none⟩

/-- The entry at `i`. -/
def read (a : NameArray) (i : ℕ) : Option HandleName := if i < a.name_cap then a.name i else none

/-- An array of `cap` entries with entry `i` written. -/
def write (cap : ℕ) (name : ℕ → Option HandleName) (i : ℕ) (e : HandleName) :
    Option (ℕ → Option HandleName) :=
  if i < cap then some (Function.update name i (some e)) else none

/-- `strcmp(n->name, name)` at the entry `i`. -/
def compare (a : NameArray) (name : List UInt8) (i : ℕ) : Option ℤ :=
  (a.read i).map fun n => strcmp n.name name

/-- The loop of both searches. -/
def search (a : NameArray) (name : List UInt8) : Option Bisected :=
  bisect (a.compare name) 0 (a.name_count - 1)

/-- `skynet_handle_findname`. -/
def findname (a : NameArray) (name : List UInt8) : Option ℕ := do
  match ← a.search name with
  | .found mid => (a.read mid).map HandleName.handle
  | .absent _ => some 0

/-- `n[j] = s->name[i]`. -/
def copyEntry (a : NameArray) (cap j i : ℕ) (n : ℕ → Option HandleName) :
    Option (ℕ → Option HandleName) := do
  let e ← a.read i
  write cap n j e

/-- The first loop into the larger array, for the entries below `before`. -/
def copyFront (a : NameArray) (cap : ℕ) : ℕ → Option (ℕ → Option HandleName)
  | 0 => some fun _ => none
  | i + 1 => (a.copyFront cap i).bind (a.copyEntry cap i i)

/-- The second loop into the larger array, `k` entries from `before` on. -/
def copyBehind (a : NameArray) (cap before : ℕ) (n : ℕ → Option HandleName) :
    ℕ → Option (ℕ → Option HandleName)
  | 0 => some n
  | k + 1 => (a.copyBehind cap before n k).bind (a.copyEntry cap (before + k + 1) (before + k))

/-- The loop that moves the entries in their array; the next one is moved to `i`. -/
def shift (before : ℕ) (a : NameArray) : ℕ → Option NameArray
  | 0 => some a
  | i + 1 =>
    if before < i + 1 then do
      let name ← a.copyEntry a.name_cap (i + 1) i a.name
      shift before { a with name := name } i
    else some a

/-- Room for one more entry at `before`. -/
def makeRoom (a : NameArray) (before : ℕ) : Option NameArray :=
  if a.name_count ≥ a.name_cap then do
    let n ← a.copyFront (a.name_cap * 2) before
    let n ← a.copyBehind (a.name_cap * 2) before n (a.name_count - before)
    return { a with name_cap := a.name_cap * 2, name := n }
  else
    a.shift before a.name_count

/-- `_insert_name_before`. -/
def insertNameBefore (a : NameArray) (e : HandleName) (before : ℕ) : Option NameArray := do
  let a ← a.makeRoom before
  let name ← write a.name_cap a.name before e
  return { a with name := name, name_count := a.name_count + 1 }

/-- `_insert_name`; the flag says whether a name was returned. -/
def insertName (a : NameArray) (name : List UInt8) (handle : ℕ) : Option (Bool × NameArray) := do
  match ← a.search name with
  | .found _ => return (false, a)
  | .absent begin_ =>
    let a ← a.insertNameBefore ⟨name, handle⟩ begin_
    return (true, a)

/-- The loop of `skynet_handle_retire` over the first `i` entries: the array, and `j`. -/
def compactLoop (a : NameArray) (handle : ℕ) : ℕ → Option ((ℕ → Option HandleName) × ℕ)
  | 0 => some (a.name, 0)
  | i + 1 => do
    let (name, j) ← a.compactLoop handle i
    let e ← NameArray.read { a with name := name } i
    if e.handle = handle then
      return (name, j)
    else if i ≠ j then
      let name ← write a.name_cap name j e
      return (name, j + 1)
    else
      return (name, j + 1)

/-- The names of the handle are taken out. -/
def compact (a : NameArray) (handle : ℕ) : Option NameArray := do
  let (name, j) ← a.compactLoop handle a.name_count
  return { a with name := name, name_count := j }

/-- The entries in order. -/
def toList (a : NameArray) : List HandleName := (List.range a.name_count).filterMap a.name

/-! ## The entries as a list -/

/-- The entries of the array are those of the list, and they fit in. -/
structure Holds (a : NameArray) (l : List HandleName) : Prop where
  count : a.name_count = l.length
  fits : a.name_count ≤ a.name_cap
  cap : 0 < a.name_cap
  entries : ∀ i < l.length, a.name i = l[i]?

variable {a : NameArray} {l : List HandleName}

theorem init_holds : init.Holds [] where
  count := rfl
  fits := by decide
  cap := by decide
  entries i hi := absurd hi i.not_lt_zero

theorem filterMap_range : ∀ n, (List.range n).filterMap (fun i => l[i]?) = l.take n
  | 0 => rfl
  | n + 1 => by
    rw [List.range_succ, List.filterMap_append, filterMap_range n, List.take_add_one]
    cases hn : l[n]? <;> simp [hn]

theorem Holds.toList (h : a.Holds l) : a.toList = l := by
  have hget : ∀ i ∈ List.range a.name_count, a.name i = l[i]? := fun i hi => by
    rw [List.mem_range, h.count] at hi
    exact h.entries i hi
  rw [NameArray.toList, List.filterMap_congr hget, h.count, filterMap_range, List.take_length]

theorem Holds.lt_cap (h : a.Holds l) {i : ℕ} (hi : i < l.length) : i < a.name_cap := by
  have hcount := h.count
  have hfits := h.fits
  omega

theorem read_of_lt {i : ℕ} (hi : i < a.name_cap) : a.read i = a.name i := if_pos hi

theorem Holds.read (h : a.Holds l) {i : ℕ} (hi : i < l.length) : a.read i = some l[i] := by
  rw [read_of_lt (h.lt_cap hi), h.entries i hi, List.getElem?_eq_getElem hi]

theorem write_of_lt {cap i : ℕ} {name : ℕ → Option HandleName} {e : HandleName} (hi : i < cap) :
    write cap name i e = some (Function.update name i (some e)) := if_pos hi

theorem copyEntry_eq {cap i j : ℕ} {n : ℕ → Option HandleName} (hi : i < a.name_cap) (hj : j < cap)
    (hsome : (a.name i).isSome) :
    a.copyEntry cap j i n = some (Function.update n j (a.name i)) := by
  obtain ⟨e, he⟩ := Option.isSome_iff_exists.mp hsome
  rw [copyEntry, read_of_lt hi, he]
  exact write_of_lt hj

theorem Holds.copyEntry (h : a.Holds l) {cap i j : ℕ} {n : ℕ → Option HandleName}
    (hi : i < l.length) (hj : j < cap) :
    a.copyEntry cap j i n = some (Function.update n j l[i]?) := by
  have hentry := h.entries i hi
  rw [copyEntry_eq (h.lt_cap hi) hj (by simp [hentry, hi]), hentry]

/-- What the first loop has copied. -/
theorem Holds.copyFront (h : a.Holds l) {cap : ℕ} : ∀ {before}, before ≤ l.length → before ≤ cap →
    a.copyFront cap before = some fun j => if j < before then l[j]? else none
  | 0, _, _ => rfl
  | i + 1, hi, hcap => by
    rw [NameArray.copyFront, h.copyFront (Nat.le_of_lt hi) (Nat.le_of_lt hcap), Option.bind_some,
      h.copyEntry hi hcap]
    refine congrArg some (funext fun j => ?_)
    by_cases hj : j = i
    · rw [hj, Function.update_self, if_pos (Nat.lt_succ_self i)]
    · rw [Function.update_of_ne hj]
      by_cases hlt : j < i
      · rw [if_pos hlt, if_pos (by omega)]
      · rw [if_neg hlt, if_neg (by omega)]

/-- What both loops have copied: the entries from `before` on stand one further. -/
theorem Holds.copyBehind (h : a.Holds l) {cap before : ℕ} {n : ℕ → Option HandleName} :
    ∀ {k}, before + k ≤ l.length → before + k < cap →
    a.copyBehind cap before n k =
      some fun j => if before < j ∧ j ≤ before + k then l[j - 1]? else n j
  | 0, _, _ => by
    rw [NameArray.copyBehind]
    refine congrArg some (funext fun j => ?_)
    rw [if_neg (by omega)]
  | k + 1, hk, hcap => by
    have hlast : before + k < l.length := by omega
    rw [NameArray.copyBehind, h.copyBehind (by omega) (by omega), Option.bind_some,
      h.copyEntry hlast (by omega)]
    refine congrArg some (funext fun j => ?_)
    by_cases hj : j = before + k + 1
    · rw [hj, Function.update_self, if_pos (by omega), Nat.add_sub_cancel]
    · rw [Function.update_of_ne hj]
      by_cases hin : before < j ∧ j ≤ before + k
      · rw [if_pos hin, if_pos (by omega)]
      · rw [if_neg hin, if_neg (by omega)]

/-- The move in the array itself does the same. -/
theorem shift_eq {before : ℕ} : ∀ {i : ℕ} {a : NameArray}, i < a.name_cap → i ≤ l.length →
    (∀ j < i, a.name j = l[j]?) → a.shift before i = some { a with
      name := fun j => if before < j ∧ j ≤ i then l[j - 1]? else a.name j }
  | 0, a, _, _, _ => by
    have hsame : (fun j => if before < j ∧ j ≤ 0 then l[j - 1]? else a.name j) = a.name :=
      funext fun j => if_neg (by omega)
    rw [shift, hsame]
  | i + 1, a, hcap, hi, hentries => by
    rw [shift]
    by_cases hbefore : before < i + 1
    · have hsome : (a.name i).isSome := by
        simp [hentries i (Nat.lt_succ_self i), Nat.lt_of_succ_le hi]
      rw [if_pos hbefore, copyEntry_eq (by omega) hcap hsome, hentries i (Nat.lt_succ_self i)]
      refine (shift_eq (by exact Nat.lt_of_succ_lt hcap) (Nat.le_of_succ_le hi)
        fun j hj => ?_).trans ?_
      · show Function.update a.name (i + 1) l[i]? j = l[j]?
        rw [Function.update_of_ne (by omega)]
        exact hentries j (by omega)
      · refine congrArg (fun name => some { a with name := name }) (funext fun j => ?_)
        show (if before < j ∧ j ≤ i then l[j - 1]? else Function.update a.name (i + 1) l[i]? j) =
          if before < j ∧ j ≤ i + 1 then l[j - 1]? else a.name j
        by_cases hj : j = i + 1
        · rw [hj, if_neg (by omega), Function.update_self, if_pos (by omega), Nat.add_sub_cancel]
        · rw [Function.update_of_ne hj]
          by_cases hin : before < j ∧ j ≤ i
          · rw [if_pos hin, if_pos (by omega)]
          · rw [if_neg hin, if_neg (by omega)]
    · have hsame : (fun j => if before < j ∧ j ≤ i + 1 then l[j - 1]? else a.name j) = a.name :=
        funext fun j => if_neg (by omega)
      rw [if_neg hbefore, hsame]

/-- With or without growth there is room at `before`, and no entry is lost. -/
theorem Holds.makeRoom (h : a.Holds l) {before : ℕ} (hb : before ≤ l.length) :
    ∃ a', a.makeRoom before = some a' ∧ a'.name_count = a.name_count ∧
      a.name_count < a'.name_cap ∧ (∀ j < before, a'.name j = l[j]?) ∧
      ∀ j, before < j → j ≤ l.length → a'.name j = l[j - 1]? := by
  have hcount := h.count
  have hfits := h.fits
  have hpos := h.cap
  by_cases hfull : a.name_count ≥ a.name_cap
  · have hsum : before + (a.name_count - before) = l.length := by omega
    refine ⟨{ a with
      name_cap := a.name_cap * 2
      name := fun j => if before < j ∧ j ≤ l.length then l[j - 1]?
        else if j < before then l[j]? else none }, ?_, rfl, ?_, fun j hj => ?_, fun j hj hle => ?_⟩
    · rw [NameArray.makeRoom, if_pos hfull, h.copyFront hb (by omega)]
      simp only [Option.bind_eq_bind, Option.bind_some]
      rw [h.copyBehind (by omega) (by omega), hsum]
      rfl
    · show a.name_count < a.name_cap * 2
      omega
    · show (if before < j ∧ j ≤ l.length then l[j - 1]?
        else if j < before then l[j]? else none) = l[j]?
      rw [if_neg (by omega), if_pos hj]
    · exact if_pos ⟨hj, hle⟩
  · refine ⟨{ a with
      name := fun j => if before < j ∧ j ≤ a.name_count then l[j - 1]? else a.name j },
      ?_, rfl, ?_, fun j hj => ?_, fun j hj hle => ?_⟩
    · rw [NameArray.makeRoom, if_neg hfull]
      exact shift_eq (by omega) (by omega) fun j hj => h.entries j (by omega)
    · exact not_le.mp hfull
    · show (if before < j ∧ j ≤ a.name_count then l[j - 1]? else a.name j) = l[j]?
      rw [if_neg (by omega)]
      exact h.entries j (by omega)
    · exact if_pos ⟨hj, by omega⟩

/-- **An insertion.** The array holds the list with the entry inserted. -/
theorem Holds.insertNameBefore (h : a.Holds l) {before : ℕ} (hb : before ≤ l.length)
    (e : HandleName) :
    ∃ a', a.insertNameBefore e before = some a' ∧ a'.Holds (l.insertIdx before e) := by
  obtain ⟨a₁, hroom, hcount, hcap, hfront, hbehind⟩ := h.makeRoom hb
  have hlen := List.length_insertIdx_of_le_length hb e
  have hc := h.count
  refine ⟨{ a₁ with
      name := Function.update a₁.name before (some e), name_count := a₁.name_count + 1 }, ?_,
    ?_, ?_, ?_, fun i hi => ?_⟩
  · rw [NameArray.insertNameBefore, hroom]
    simp only [Option.bind_eq_bind, Option.bind_some]
    rw [write_of_lt (by omega)]
    rfl
  · show a₁.name_count + 1 = _
    omega
  · show a₁.name_count + 1 ≤ a₁.name_cap
    omega
  · show 0 < a₁.name_cap
    omega
  · show Function.update a₁.name before (some e) i = _
    rw [List.getElem?_insertIdx]
    rcases lt_trichotomy i before with hlt | heq | hgt
    · rw [if_pos hlt, Function.update_of_ne (by omega)]
      exact hfront i hlt
    · subst heq
      rw [if_neg (lt_irrefl i), if_pos rfl, if_pos hb, Function.update_self]
    · rw [if_neg (by omega), if_neg (by omega), Function.update_of_ne (by omega)]
      exact hbehind i hgt (by omega)

/-- The entries of other handles. -/
def others (handle : ℕ) (l : List HandleName) : List HandleName :=
  l.filter fun e => e.handle ≠ handle

/-- What the loop of a retirement has done to the first `i` entries. -/
theorem Holds.compactLoop (h : a.Holds l) (handle : ℕ) : ∀ {i}, i ≤ l.length →
    ∃ name, a.compactLoop handle i = some (name, (others handle (l.take i)).length) ∧
      (∀ j < (others handle (l.take i)).length, name j = (others handle (l.take i))[j]?) ∧
      ∀ j, i ≤ j → name j = a.name j
  | 0, _ => ⟨a.name, rfl, fun j hj => absurd hj j.not_lt_zero, fun j _ => rfl⟩
  | i + 1, hi => by
    obtain ⟨name, hloop, hdone, hrest⟩ := h.compactLoop handle (Nat.le_of_lt hi)
    have hread : NameArray.read { a with name := name } i = some l[i] := by
      refine (if_pos (h.lt_cap hi)).trans ?_
      rw [← List.getElem?_eq_getElem hi, ← h.entries i hi]
      exact hrest i le_rfl
    have hle : (others handle (l.take i)).length ≤ i :=
      (List.length_filter_le _ _).trans (List.length_take_le i l)
    rw [NameArray.compactLoop, hloop, List.take_succ_eq_append_getElem hi]
    simp only [Option.bind_eq_bind, Option.bind_some, hread]
    generalize hkept : others handle (l.take i) = kept at hdone hle ⊢
    by_cases hgone : l[i].handle = handle
    · have hsame : others handle (l.take i ++ [l[i]]) = kept := by
        rw [others, List.filter_append, List.filter_cons_of_neg (by simp [hgone])]
        simpa [others] using hkept
      rw [if_pos hgone, hsame]
      exact ⟨name, rfl, hdone, fun j hj => hrest j (by omega)⟩
    · have hmore : others handle (l.take i ++ [l[i]]) = kept ++ [l[i]] := by
        rw [others, List.filter_append, List.filter_cons_of_pos (by simp [hgone]), ← hkept]
        rfl
      rw [if_neg hgone, hmore, List.length_append, List.length_singleton]
      by_cases hij : i ≠ kept.length
      · rw [if_pos hij, write_of_lt (hle.trans_lt (h.lt_cap hi))]
        refine ⟨_, rfl, fun j hj => ?_, fun j hj => ?_⟩
        · by_cases hlast : j = kept.length
          · rw [hlast, Function.update_self, List.getElem?_concat_length]
          · rw [Function.update_of_ne hlast, List.getElem?_append_left (by omega)]
            exact hdone j (by omega)
        · rw [Function.update_of_ne (by omega)]
          exact hrest j (by omega)
      · rw [if_neg hij]
        refine ⟨name, rfl, fun j hj => ?_, fun j hj => hrest j (by omega)⟩
        by_cases hlast : j = kept.length
        · -- the entry stands where it stays
          have hji : j = i := by omega
          rw [hlast, List.getElem?_concat_length, ← hlast, hji, hrest i le_rfl, h.entries i hi,
            List.getElem?_eq_getElem hi]
        · rw [List.getElem?_append_left (by omega)]
          exact hdone j (by omega)

/-- **A retirement.** The array holds the entries of the other handles. -/
theorem Holds.compact (h : a.Holds l) (handle : ℕ) :
    ∃ a', a.compact handle = some a' ∧ a'.Holds (others handle l) := by
  obtain ⟨name, hloop, hdone, -⟩ := h.compactLoop handle le_rfl
  have hle : (others handle l).length ≤ l.length := List.length_filter_le _ _
  have hcount := h.count
  have hfits := h.fits
  rw [List.take_length] at hloop hdone
  refine ⟨{ a with name := name, name_count := (others handle l).length }, ?_, rfl, ?_, h.cap,
    hdone⟩
  · rw [NameArray.compact, hcount, hloop]
    rfl
  · show (others handle l).length ≤ a.name_cap
    omega

/-! ## Sorted names -/

/-- The names are strings in the order of `strcmp`, none of them twice. -/
structure Sorted (l : List HandleName) : Prop where
  strings : ∀ e ∈ l, IsCString e.name
  order : l.Pairwise fun e e' => strcmp e.name e'.name < 0

theorem Sorted.nil : Sorted [] where
  strings _ he := absurd he List.not_mem_nil
  order := .nil

/-- Where `name` stands among the names. -/
def standing (l : List HandleName) (name : List UInt8) (i : ℕ) : ℤ :=
  (l[i]?.map fun e => strcmp e.name name).getD 0

theorem standing_eq {name : List UInt8} {i : ℕ} (hi : i < l.length) :
    standing l name i = strcmp l[i].name name := by
  rw [standing, List.getElem?_eq_getElem hi]
  rfl

theorem Holds.compares (h : a.Holds l) (hs : Sorted l) {name : List UInt8}
    (hname : IsCString name) : Compares (a.compare name) l.length (standing l name) where
  read i hi := by
    rw [NameArray.compare, h.read hi, Option.map_some, standing_eq hi]
  mono i j hij hj hle := by
    have hi : i < l.length := hij.trans hj
    have horder := List.pairwise_iff_getElem.mp hs.order i j hi hj hij
    have hstring := hs.strings _ (List.getElem_mem hj)
    rw [standing_eq hj] at hle
    rw [standing_eq hi]
    rcases lt_or_eq_of_le hle with hlt | heq
    · exact strcmp_trans hstring horder hlt
    · rw [(strcmp_eq_zero_iff hstring hname).mp heq] at horder
      exact horder

/-- A name is in the list. -/
def Named (l : List HandleName) (name : List UInt8) : Prop := ∃ e ∈ l, e.name = name

/-- A name before which and behind which every entry is different is not there. -/
theorem not_named {name : List UInt8} {before : ℕ}
    (hfront : ∀ e ∈ l.take before, strcmp e.name name < 0)
    (hbehind : ∀ e ∈ l.drop before, strcmp name e.name < 0) : ¬ Named l name := by
  rintro ⟨e, he, rfl⟩
  have hself : ¬ strcmp e.name e.name < 0 := by
    rw [strcmp_self]
    exact lt_irrefl 0
  rw [← List.take_append_drop before l] at he
  rcases List.mem_append.mp he with hmem | hmem
  · exact hself (hfront e hmem)
  · exact hself (hbehind e hmem)

/-- **The search.** It finds the entry of the name, or the place before which the name belongs. -/
theorem Holds.search (h : a.Holds l) (hs : Sorted l) {name : List UInt8} (hname : IsCString name) :
    (∃ mid, ∃ hmid : mid < l.length, a.search name = some (.found mid) ∧ l[mid].name = name) ∨
      ∃ before, a.search name = some (.absent before) ∧ before ≤ l.length ∧
        (∀ e ∈ l.take before, strcmp e.name name < 0) ∧
        ∀ e ∈ l.drop before, strcmp name e.name < 0 := by
  obtain ⟨r, hsearch, hright⟩ := (h.compares hs hname).bisect_right
  rw [← h.count] at hsearch
  cases r with
  | found mid =>
    obtain ⟨hmid, hzero⟩ := hright
    rw [standing_eq hmid] at hzero
    exact .inl ⟨mid, hmid, hsearch,
      (strcmp_eq_zero_iff (hs.strings _ (List.getElem_mem hmid)) hname).mp hzero⟩
  | absent before =>
    obtain ⟨hle, hfront, hbehind⟩ := hright
    refine .inr ⟨before, hsearch, hle, fun e he => ?_, fun e he => ?_⟩
    · obtain ⟨i, hi, rfl⟩ := List.mem_take_iff_getElem.mp he
      have hlt := hfront i (by omega)
      rwa [standing_eq (by omega)] at hlt
    · obtain ⟨i, hi, rfl⟩ := List.mem_drop_iff_getElem.mp he
      have hin : before + i < l.length := by omega
      have hgt := hbehind (before + i) (by omega) hin
      rw [standing_eq hin] at hgt
      rw [strcmp_comm]
      omega

theorem insertIdx_eq {e : HandleName} : ∀ {l : List HandleName} {i : ℕ}, i ≤ l.length →
    l.insertIdx i e = l.take i ++ e :: l.drop i
  | l, 0, _ => by simp
  | [], i + 1, hi => absurd hi (by simp)
  | x :: l, i + 1, hi => by
    rw [List.insertIdx_succ_cons, insertIdx_eq (Nat.le_of_succ_le_succ hi)]
    rfl

/-- The list with an entry in its place. -/
theorem Sorted.insertIdx (hs : Sorted l) {before : ℕ} {name : List UInt8} {handle : ℕ}
    (hname : IsCString name) (hle : before ≤ l.length)
    (hfront : ∀ e ∈ l.take before, strcmp e.name name < 0)
    (hbehind : ∀ e ∈ l.drop before, strcmp name e.name < 0) :
    Sorted (l.insertIdx before ⟨name, handle⟩) := by
  have hsplit := hs.order
  rw [← List.take_append_drop before l, List.pairwise_append] at hsplit
  obtain ⟨hpre, hpost, hcross⟩ := hsplit
  constructor
  · intro e he
    rcases (List.mem_insertIdx hle).mp he with rfl | hmem
    · exact hname
    · exact hs.strings e hmem
  · rw [insertIdx_eq hle, List.pairwise_append, List.pairwise_cons]
    refine ⟨hpre, ⟨hbehind, hpost⟩, fun e he e' he' => ?_⟩
    rcases List.mem_cons.mp he' with rfl | hmem
    · exact hfront e he
    · exact hcross e he e' hmem

theorem Sorted.others (hs : Sorted l) (handle : ℕ) : Sorted (others handle l) where
  strings e he := hs.strings e (List.mem_of_mem_filter he)
  order := hs.order.sublist List.filter_sublist

/-- Two entries with one name are one. -/
theorem Sorted.name_inj (hs : Sorted l) {e e' : HandleName} (he : e ∈ l) (he' : e' ∈ l)
    (hname : e.name = e'.name) : e = e' := by
  have hnodup : (l.map HandleName.name).Nodup := List.pairwise_map.mpr <| hs.order.imp
    fun {x y} hlt heq => by
      rw [heq, strcmp_self] at hlt
      exact lt_irrefl 0 hlt
  exact List.inj_on_of_nodup_map hnodup he he' hname

/-- What a list of names says of a name; 0 when it is not there. -/
def lookup (l : List HandleName) (name : List UInt8) : ℕ :=
  ((l.find? fun e => e.name = name).map HandleName.handle).getD 0

theorem Sorted.lookup (hs : Sorted l) {e : HandleName} (he : e ∈ l) :
    lookup l e.name = e.handle := by
  obtain ⟨e', hfind⟩ := Option.isSome_iff_exists.mp
    (List.find?_isSome.mpr ⟨e, he, decide_eq_true rfl⟩ :
      (l.find? fun e' => e'.name = e.name).isSome)
  have hname := List.find?_some hfind
  have hsame := hs.name_inj (List.mem_of_find?_eq_some hfind) he (of_decide_eq_true hname)
  rw [NameArray.lookup, hfind, hsame]
  rfl

theorem lookup_absent {name : List UInt8} (h : ¬ Named l name) : lookup l name = 0 := by
  have hfind : (l.find? fun e => e.name = name) = none :=
    List.find?_eq_none.mpr fun e he heq => h ⟨e, he, of_decide_eq_true heq⟩
  rw [lookup, hfind]
  rfl

/-- A name is in a list or is not, with what is looked up. -/
theorem Sorted.lookup_cases (hs : Sorted l) (name : List UInt8) :
    (∃ e ∈ l, e.name = name ∧ NameArray.lookup l name = e.handle) ∨
      ¬ Named l name ∧ NameArray.lookup l name = 0 := by
  by_cases h : Named l name
  · obtain ⟨e, he, rfl⟩ := h
    exact .inl ⟨e, he, rfl, hs.lookup he⟩
  · exact .inr ⟨h, lookup_absent h⟩

/-- A retirement unbinds the names of its handle. -/
theorem Sorted.lookup_others (hs : Sorted l) (handle : ℕ) (name : List UInt8) :
    NameArray.lookup (NameArray.others handle l) name =
      if NameArray.lookup l name = handle then 0 else NameArray.lookup l name := by
  rcases hs.lookup_cases name with ⟨e, he, rfl, hlook⟩ | ⟨habsent, hlook⟩
  · rw [hlook]
    by_cases hh : e.handle = handle
    · rw [if_pos hh]
      refine lookup_absent ?_
      rintro ⟨e', he', heq⟩
      obtain ⟨hmem, hother⟩ := List.mem_filter.mp he'
      rw [hs.name_inj hmem he heq] at hother
      exact of_decide_eq_true hother hh
    · rw [if_neg hh]
      exact (hs.others handle).lookup (List.mem_filter.mpr ⟨he, decide_eq_true hh⟩)
  · have hother : ¬ Named (NameArray.others handle l) name := by
      rintro ⟨e, he, hname⟩
      exact habsent ⟨e, List.mem_of_mem_filter he, hname⟩
    rw [hlook, lookup_absent hother, ite_self]

/-- An insertion binds its name. -/
theorem Sorted.lookup_insertIdx (hs : Sorted l) {before handle : ℕ} {name : List UInt8}
    (hle : before ≤ l.length) (hins : Sorted (l.insertIdx before ⟨name, handle⟩))
    (name' : List UInt8) : NameArray.lookup (l.insertIdx before ⟨name, handle⟩) name' =
      Function.update (NameArray.lookup l) name handle name' := by
  by_cases hname : name' = name
  · rw [hname, Function.update_self]
    exact hins.lookup ((List.mem_insertIdx hle).mpr (.inl rfl))
  · rw [Function.update_of_ne hname]
    rcases hs.lookup_cases name' with ⟨e, he, rfl, hlook⟩ | ⟨habsent, hlook⟩
    · rw [hlook]
      exact hins.lookup ((List.mem_insertIdx hle).mpr (.inr he))
    · rw [hlook]
      refine lookup_absent ?_
      rintro ⟨e, he, heq⟩
      rcases (List.mem_insertIdx hle).mp he with rfl | hmem
      · exact hname heq.symm
      · exact habsent ⟨e, hmem, heq⟩

/-! ## The operations on the array -/

/-- `skynet_handle_findname` looks the name up. -/
theorem Holds.findname (h : a.Holds l) (hs : Sorted l) {name : List UInt8}
    (hname : IsCString name) : a.findname name = some (lookup l name) := by
  rcases h.search hs hname with ⟨mid, hmid, hsearch, rfl⟩ | ⟨before, hsearch, -, hfront, hbehind⟩
  · rw [NameArray.findname, hsearch, hs.lookup (List.getElem_mem hmid)]
    show (a.read mid).map HandleName.handle = _
    rw [h.read hmid]
    rfl
  · rw [NameArray.findname, hsearch, lookup_absent (not_named hfront hbehind)]
    rfl

/-- `_insert_name` fails just when the name is there, and enters it otherwise. -/
theorem Holds.insertName (h : a.Holds l) (hs : Sorted l) {name : List UInt8}
    (hname : IsCString name) (handle : ℕ) :
    (Named l name ∧ a.insertName name handle = some (false, a)) ∨
      (¬ Named l name ∧ ∃ a' before, before ≤ l.length ∧
        a.insertName name handle = some (true, a') ∧
        a'.Holds (l.insertIdx before ⟨name, handle⟩) ∧
        Sorted (l.insertIdx before ⟨name, handle⟩)) := by
  rcases h.search hs hname with ⟨mid, hmid, hsearch, rfl⟩ | ⟨before, hsearch, hle, hfront, hbehind⟩
  · refine .inl ⟨⟨_, List.getElem_mem hmid, rfl⟩, ?_⟩
    rw [NameArray.insertName, hsearch]
    rfl
  · obtain ⟨a', hins, hholds⟩ := h.insertNameBefore hle ⟨name, handle⟩
    refine .inr ⟨not_named hfront hbehind, a', before, hle, ?_, hholds,
      hs.insertIdx hname hle hfront hbehind⟩
    rw [NameArray.insertName, hsearch]
    simp [hins]

end NameArray

end DnServer.Skynet
