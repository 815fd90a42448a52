import DnServer.Skynet.Seri.Unpack

/-!
# Tables as finite maps

Two values are the same when they are one primitive value, or tables whose
entries are the same in some order. A table splits into the entries under
`1 .. n` and the others, which is how it is packed; what is unpacked is put
together key by key, and no key is set twice.
-/

namespace DnServer.Skynet

open DnServer.Lib

/-! ## Sameness -/

mutual

/-- The values are equal, tables as finite maps. -/
inductive Same : Value → Value → Prop
  | nil : Same .nil .nil
  | boolean {b : Bool} : Same (.boolean b) (.boolean b)
  | number {n : Double} : Same (.number n) (.number n)
  | string {s : List UInt8} : Same (.string s) (.string s)
  | userdata {p : BitVec 64} : Same (.userdata p) (.userdata p)
  | table {r r' : Fin 2147483648} {es es' fs : Entries} :
    es.Perm es' → SameEntries es' fs → Same (.table r es) (.table r' fs)

/-- The entries are the same one by one. -/
inductive SameEntries : Entries → Entries → Prop
  | nil : SameEntries [] []
  | cons {k k' v v' : Value} {es fs : Entries} :
    Same k k' → Same v v' → SameEntries es fs → SameEntries ((k, v) :: es) ((k', v') :: fs)

end

/-- The entries of a table: no key is `nil` or no number, no value is `nil`, and no two
keys are equal. -/
structure Entries.WellFormed (es : Entries) : Prop where
  key : ∀ e ∈ es, e.1.isNil = false ∧ e.1.isNaN = false
  value : ∀ e ∈ es, e.2.isNil = false
  distinct : es.Pairwise fun e f => e.1.rawequal f.1 = false

/-- What the packer is for: no number is `-0`, a string has a length that is an `int`, and
tables without the field `__remote` stand at most so many levels deep. -/
inductive Plain : ℕ → Value → Prop
  | nil {n : ℕ} : Plain n .nil
  | boolean {n : ℕ} {b : Bool} : Plain n (.boolean b)
  | number {n : ℕ} {d : Double} : d ≠ Double.negZero → Plain n (.number d)
  | string {n : ℕ} {s : List UInt8} : s.length < 2147483648 → Plain n (.string s)
  | userdata {n : ℕ} {p : BitVec 64} : Plain n (.userdata p)
  | table {n : ℕ} {r : Fin 2147483648} {es : Entries} :
    es.WellFormed → (∀ e ∈ es, e.1 ≠ Value.remoteKey) → (∀ e ∈ es, Plain n e.1) →
    (∀ e ∈ es, Plain n e.2) → Plain (n + 1) (.table r es)

theorem Same.isNil {v v' : Value} (h : Same v v') : v'.isNil = v.isNil := by
  cases h <;> rfl

theorem Same.isNaN {v v' : Value} (h : Same v v') : v'.isNaN = v.isNaN := by
  cases h <;> rfl

/-- Keys that are apart stay apart. -/
theorem Same.rawequal {k k' l l' : Value} (hk : Same k k') (hl : Same l l')
    (h : k.rawequal l = false) : k'.rawequal l' = false := by
  cases hk <;> cases hl <;> exact h

namespace SameEntries

theorem append {es fs es' fs' : Entries} (h : SameEntries es fs) (h' : SameEntries es' fs') :
    SameEntries (es ++ es') (fs ++ fs') := by
  induction es generalizing fs with
  | nil =>
    cases h
    exact h'
  | cons e es ih =>
    cases h with
    | cons hk hv hrest => exact .cons hk hv (ih hrest)

theorem map {ι : Type} {l : List ι} {f g : ι → Value × Value}
    (h : ∀ x ∈ l, Same (f x).1 (g x).1 ∧ Same (f x).2 (g x).2) :
    SameEntries (l.map f) (l.map g) := by
  induction l with
  | nil => exact .nil
  | cons x l ih =>
    exact .cons (h x List.mem_cons_self).1 (h x List.mem_cons_self).2
      (ih fun y hy => h y (List.mem_cons_of_mem x hy))

/-- The entries without a value are the same ones. -/
theorem filter {es fs : Entries} (h : SameEntries es fs) :
    SameEntries (es.filter fun e => !e.2.isNil) (fs.filter fun e => !e.2.isNil) := by
  induction es generalizing fs with
  | nil =>
    cases h
    exact .nil
  | cons e es ih =>
    cases h with
    | @cons k k' v v' _ fs hk hv hrest =>
      have hnil := hv.isNil
      cases hcase : v.isNil with
      | true =>
        rw [hcase] at hnil
        simpa [hcase, hnil] using ih hrest
      | false =>
        rw [hcase] at hnil
        simpa [hcase, hnil] using SameEntries.cons hk hv (ih hrest)

end SameEntries

namespace Entries

variable {es : Entries} {r : ℕ}

theorem rawequal_index {k : Value} {i : ℕ} (hi : i < 2147483648)
    (hk : k ≠ .number Double.negZero) (h : k.rawequal (.index i) = true) : k = .index i := by
  cases k with
  | number d =>
    have hd : d ≠ Double.negZero := fun hd => hk (by rw [hd])
    rw [Value.index, Value.rawequal, Double.eq_symm] at h
    rw [Value.index, Double.eq_ofInt (by omega) hd h]
  | _ => cases h

theorem index_rawequal {i : ℕ} (hi : i < 2147483648) :
    (Value.index i).rawequal (.index i) = true :=
  Double.eq_refl (Double.ofInt_ordinary (by omega)).1

theorem index_inj {i j : ℕ} (hi : i < 2147483648) (hj : j < 2147483648)
    (h : Value.index i = .index j) : i = j := by
  have hof := Double.ofInt_inj (by omega) (by omega) (Value.number.inj h)
  omega

/-- The keys that are passed over are the numbers of the array part. -/
theorem inArray_iff {k : Value} (hr : r < 2147483648) (hk : k ≠ .number Double.negZero) :
    inArray r k = true ↔ ∃ i, 1 ≤ i ∧ i ≤ r ∧ k = .index i := by
  constructor
  · intro h
    cases k with
    | number d =>
      simp only [inArray, Bool.and_eq_true, decide_eq_true_eq] at h
      obtain ⟨⟨heq, hpos⟩, hle⟩ := h
      have hd : d ≠ Double.negZero := fun hd => hk (by rw [hd])
      have hcast : ((d.int32.toNat : ℕ) : ℤ) = d.int32 := Int.toNat_of_nonneg (by omega)
      rw [Double.eq_symm] at heq
      refine ⟨d.int32.toNat, by omega, by omega, ?_⟩
      rw [Value.index, hcast, Double.eq_ofInt (by omega) hd heq]
    | _ => cases h
  · rintro ⟨i, hpos, hle, rfl⟩
    have hint : (Double.ofInt (i : ℤ)).int32 = i := Double.int32_ofInt (by omega) (by omega)
    have hself : (Double.ofInt (i : ℤ)).eq (.ofInt i) = true := index_rawequal (by omega)
    simp only [Value.index, inArray, hint, hself, Bool.true_and, Bool.and_eq_true,
      decide_eq_true_eq]
    omega

/-- An entry is what its key reads. -/
theorem WellFormed.rawget (h : es.WellFormed) {k v : Value} (hmem : (k, v) ∈ es)
    (hk : k.rawequal k = true) : rawget es k = v := by
  have hfind : es.find? (fun e => e.1.rawequal k) = some (k, v) := by
    rw [List.find?_eq_some_iff_append]
    obtain ⟨as, bs, rfl⟩ := List.append_of_mem hmem
    refine ⟨hk, as, bs, rfl, ?_⟩
    intro a ha
    rw [(List.pairwise_append.1 h.distinct).2.2 a ha (k, v) List.mem_cons_self]
    rfl
  rw [Entries.rawget, hfind]
  rfl

/-- What an index reads is `nil` or stands under it. -/
theorem rawget_mem (hkeys : ∀ e ∈ es, e.1 ≠ .number Double.negZero) {i : ℕ}
    (hi : i < 2147483648) (h : (rawget es (.index i)).isNil = false) :
    (.index i, rawget es (.index i)) ∈ es := by
  cases hfind : es.find? (fun e => e.1.rawequal (.index i)) with
  | none =>
    rw [rawget, hfind] at h
    cases h
  | some e =>
    have hmem := List.mem_of_find?_eq_some hfind
    have hequal : e.1.rawequal (.index i) = true := by
      simpa using List.find?_some hfind
    have hkey := rawequal_index hi (hkeys e hmem) hequal
    rw [rawget, hfind, ← hkey]
    exact hmem

/-- What the array part holds of a table. -/
def arrayPart (es : Entries) (r : ℕ) : Entries :=
  ((List.range' 1 r).map fun i => (Value.index i, rawget es (.index i))).filter fun e =>
    !e.2.isNil

/-- What the hash part holds of it. -/
def hashPart (es : Entries) (r : ℕ) : Entries := es.filter fun e => !inArray r e.1

theorem mem_arrayPart {e : Value × Value} : e ∈ arrayPart es r ↔
    ∃ i, 1 ≤ i ∧ i ≤ r ∧ e = (.index i, rawget es (.index i)) ∧ e.2.isNil = false := by
  simp only [arrayPart, List.mem_filter, List.mem_map, List.mem_range'_1]
  constructor
  · rintro ⟨⟨i, hi, rfl⟩, hnil⟩
    exact ⟨i, hi.1, by omega, rfl, by simpa using hnil⟩
  · rintro ⟨i, hpos, hle, rfl, hnil⟩
    exact ⟨⟨i, ⟨hpos, by omega⟩, rfl⟩, by simpa using hnil⟩

/-- No two indices are one key. -/
theorem arrayPart_nodup (hr : r < 2147483648) : (arrayPart es r).Nodup := by
  refine List.Nodup.filter _ (List.Nodup.map_on ?_ List.nodup_range')
  intro i hi j hj heq
  rw [List.mem_range'_1] at hi hj
  exact index_inj (by omega) (by omega) (congrArg Prod.fst heq)

/-- Both list the entries under the indices, each once. -/
theorem WellFormed.arrayPart_perm (h : es.WellFormed)
    (hkeys : ∀ e ∈ es, e.1 ≠ .number Double.negZero) (hr : r < 2147483648) :
    (es.filter fun e => inArray r e.1).Perm (arrayPart es r) := by
  have hnodup : (es.filter fun e => inArray r e.1).Nodup := by
    refine List.Pairwise.imp_of_mem ?_ (h.distinct.sublist List.filter_sublist)
    rintro e f he - hne rfl
    obtain ⟨hmem, hin⟩ := List.mem_filter.1 he
    obtain ⟨i, -, hle, hkey⟩ := (inArray_iff hr (hkeys e hmem)).1 hin
    rw [hkey, index_rawequal (by omega)] at hne
    cases hne
  rw [List.perm_ext_iff_of_nodup hnodup (arrayPart_nodup hr)]
  rintro ⟨k, v⟩
  rw [List.mem_filter, mem_arrayPart]
  constructor
  · rintro ⟨hmem, hin⟩
    obtain ⟨i, hpos, hle, hkey⟩ := (inArray_iff hr (hkeys _ hmem)).1 hin
    obtain rfl : k = .index i := hkey
    exact ⟨i, hpos, hle, by rw [h.rawget hmem (index_rawequal (by omega))], h.value _ hmem⟩
  · rintro ⟨i, hpos, hle, heq, hnil⟩
    rw [heq] at hnil ⊢
    have hmem := rawget_mem hkeys (by omega) hnil
    exact ⟨hmem, (inArray_iff hr (hkeys _ hmem)).2 ⟨i, hpos, hle, rfl⟩⟩

/-- The two parts are the table. -/
theorem WellFormed.parts (h : es.WellFormed) (hkeys : ∀ e ∈ es, e.1 ≠ .number Double.negZero)
    (hr : r < 2147483648) : es.Perm (arrayPart es r ++ hashPart es r) :=
  (List.filter_append_perm (fun e : Value × Value => inArray r e.1) es).symm.trans
    ((h.arrayPart_perm hkeys hr).append_right _)

/-! ### Put together again -/

end Entries

end DnServer.Skynet
