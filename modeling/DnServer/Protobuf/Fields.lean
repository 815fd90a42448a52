import DnServer.Protobuf.Context

/-!
# What is accepted

The grammar of a message: whole fields one after the other, each a key and behind it what the key
says. `_pbcC_open` accepts these bytes and no others, and reads nothing but them, as long as no
field claims to be nearly `2 ^ 32` bytes long.

* `open_fields_sound`, `open_fields_whole`: what is accepted is a sequence of whole
  fields, and each such sequence is, by induction over the bytes and over the fields.
-/

namespace DnServer.Protobuf

open DnServer.Lib

/-- What stands behind a key. -/
inductive Payload
  | varint (number : List UInt8)
  | bit64 (bytes : List UInt8)
  | lend (number body : List UInt8)
  | bit32 (bytes : List UInt8)
  deriving DecidableEq, Repr

namespace Payload

def wiretype : Payload → ℕ
  | varint _ => WT_VARINT
  | bit64 _ => WT_BIT64
  | lend .. => WT_LEND
  | bit32 _ => WT_BIT32

def bytes : Payload → List UInt8
  | varint number => number
  | bit64 bytes => bytes
  | lend number body => number ++ body
  | bit32 bytes => bytes

/-- It has the length that it must have. -/
def Whole (undef : ℕ → ℕ → ℕ) : Payload → Prop
  | varint number => Number number
  | bit64 bytes => bytes.length = 8
  | lend number body => Number number ∧ (value undef number).hi = 0 ∧
    (value undef number).low.toNat = body.length
  | bit32 bytes => bytes.length = 4

/-- The word that four bytes are. -/
def wordOf (l : List UInt8) : UInt32 := (word l 0).getD 0

/-- The value of the atom, where it stands at `pos`. -/
def v (undef : ℕ → ℕ → ℕ) (pos : ℕ) : Payload → Longlong
  | varint number => value undef number
  | bit64 bytes => ⟨wordOf bytes, wordOf (bytes.drop 4)⟩
  | lend number body => ⟨UInt32.ofNat (pos + number.length),
    UInt32.ofNat (pos + number.length + body.length)⟩
  | bit32 bytes => ⟨wordOf bytes, 0⟩

end Payload

structure Field where
  key : List UInt8
  payload : Payload
  deriving DecidableEq, Repr

namespace Field

def bytes (f : Field) : List UInt8 := f.key ++ f.payload.bytes

/-- The key is a number of one word, whose low bits say what stands behind it. -/
structure Whole (undef : ℕ → ℕ → ℕ) (f : Field) : Prop where
  number : Number f.key
  hi : (value undef f.key).hi = 0
  wiretype : (value undef f.key).low.toNat &&& 7 = f.payload.wiretype
  payload : f.payload.Whole undef

def atom (undef : ℕ → ℕ → ℕ) (pos : ℕ) (f : Field) : Atom :=
  ⟨(value undef f.key).low, f.payload.v undef (pos + f.key.length)⟩

end Field

/-- The atoms of the fields, of which the first stands at `pos`. -/
def atoms (undef : ℕ → ℕ → ℕ) : ℕ → List Field → List Atom
  | _, [] => []
  | pos, f :: fs => f.atom undef pos :: atoms undef (pos + f.bytes.length) fs

variable {undef : ℕ → ℕ → ℕ} {junk : ℕ → ℕ → UInt8} {data l m : List UInt8} {pos cap : ℕ}

/-- At `pos` a number is read for the length of a field, and with its own bytes it is no longer
a number of 32 bits. -/
def Round (undef : ℕ → ℕ → ℕ) (junk : ℕ → ℕ → UInt8) (data : List UInt8) (pos : ℕ) : Prop :=
  ∃ number, Number number ∧ Stands (peek junk data pos (data.length - pos)) 0 number ∧
    2 ^ 32 ≤ number.length + (value undef number).low.toNat

/-- Behind whole fields there is the key of a field that claims to be nearly `2 ^ 32` bytes
long. -/
def Oversized (undef : ℕ → ℕ → ℕ) (junk : ℕ → ℕ → UInt8) (data : List UInt8) : Prop :=
  ∃ (fs : List Field) (key : List UInt8), (∀ f ∈ fs, f.Whole undef) ∧ Number key ∧
    (value undef key).hi = 0 ∧ (value undef key).low.toNat &&& 7 = WT_LEND ∧
    fs.flatMap Field.bytes ++ key <+: data ∧
    Round undef junk data (fs.flatMap Field.bytes ++ key).length

/-! ## Where the bytes come from -/

theorem peek_isSome (junk : ℕ → ℕ → UInt8) (hcap : pos + cap = data.length) {i : ℕ} (hi : i < 10) :
    (peek junk data pos cap i).isSome := by
  unfold peek
  split
  · rw [List.getElem?_eq_getElem (by omega)]
    rfl
  · rfl

/-- What stands where the number is read from, stands in the message. -/
theorem stands_peek (hcap : l.length ≤ cap) :
    Stands (peek junk data pos cap) 0 l ↔ l <+: data.drop pos := by
  rw [List.prefix_iff_getElem?]
  refine forall₂_congr fun j hj => ?_
  rw [Nat.zero_add, peek, if_pos (.inr (by omega)), List.getElem?_drop]

theorem decode_peek (undef : ℕ → ℕ → ℕ) (junk : ℕ → ℕ → UInt8)
    (hcap : pos + cap = data.length) :
    ∃ number, Number number ∧ Stands (peek junk data pos cap) 0 number ∧
      pbcV_decode undef (peek junk data pos cap) =
        some (number.length, value undef number) := by
  rcases decode_cases undef (peek junk data pos cap) with
    ⟨number, v, hn, hs, -⟩ | ⟨l, -, hlen, -, hnone⟩
  · exact ⟨number, hn, hs, hn.decode hs⟩
  · have hsome := peek_isSome junk hcap hlen
    rw [hnone] at hsome
    cases hsome

theorem decode_peek_eq (undef : ℕ → ℕ → ℕ) (junk : ℕ → ℕ → UInt8) (hn : Number l)
    (hcap : l.length ≤ cap) (hpre : l <+: data.drop pos) :
    pbcV_decode undef (peek junk data pos cap) = some (l.length, value undef l) :=
  hn.decode ((stands_peek hcap).mpr hpre)

theorem word_congr {d d' : List UInt8} {p p' : ℕ} (h : ∀ i < 4, d[p + i]? = d'[p' + i]?) :
    word d p = word d' p' := by
  have h0 := h 0 (by decide)
  rw [Nat.add_zero, Nat.add_zero] at h0
  unfold word
  rw [h0, h 1 (by decide), h 2 (by decide), h 3 (by decide)]

theorem word_of_length (h : 4 ≤ l.length) : word l 0 = some (Payload.wordOf l) := by
  have hsome : (word l 0).isSome := by
    unfold word
    simp only [Nat.zero_add]
    rw [List.getElem?_eq_getElem (show 0 < l.length by omega),
      List.getElem?_eq_getElem (show 1 < l.length by omega),
      List.getElem?_eq_getElem (show 2 < l.length by omega),
      List.getElem?_eq_getElem (show 3 < l.length by omega)]
    rfl
  rw [Payload.wordOf]
  obtain ⟨w, hw⟩ := Option.isSome_iff_exists.mp hsome
  rw [hw]
  rfl

/-- The word that is read in the message is that of the bytes there. -/
theorem word_prefix (hpre : l <+: data.drop pos) {k : ℕ} (hk : k + 4 ≤ l.length) :
    word data (pos + k) = some (Payload.wordOf (l.drop k)) := by
  rw [← word_of_length (l := l.drop k) (by rw [List.length_drop]; omega)]
  refine word_congr fun i hi => ?_
  have hget := List.prefix_iff_getElem?.mp hpre (k + i) (by omega)
  rw [List.getElem?_drop] at hget
  rw [Nat.zero_add, List.getElem?_drop, Nat.add_assoc, hget, List.getElem?_eq_getElem]

/-! ## One field -/

theorem value_decode_whole (hcap : pos + cap = data.length) (hlen : data.length < 2 ^ 31)
    {w : UInt32} {p : Payload} (hp : p.Whole undef) (hw : w.toNat &&& 7 = p.wiretype)
    (hpre : p.bytes <+: data.drop pos) :
    value_decode undef junk data w pos cap =
      some (some (⟨w, p.v undef pos⟩, pos + p.bytes.length)) := by
  have hle : p.bytes.length ≤ cap := by
    have := hpre.length_le
    rw [List.length_drop] at this
    omega
  cases p with
  | varint number =>
    have hread := decode_peek_eq undef junk hp hle hpre
    have hfits : ¬(cap < 10 ∧ cap < number.length) := fun h => by
      simp only [Payload.bytes] at hle
      omega
    simp only [value_decode, hw, Payload.wiretype, hread, Option.bind_eq_bind, Option.bind_some,
      if_neg hfits]
    rfl
  | bit64 bytes =>
    have hlength : bytes.length = 8 := hp
    have hlow := word_prefix (k := 0) hpre (by simp only [Payload.bytes]; omega)
    have hhi := word_prefix (k := 4) hpre (by simp only [Payload.bytes]; omega)
    have hfits : ¬cap < 8 := by
      simp only [Payload.bytes] at hle
      omega
    rw [Nat.add_zero] at hlow
    simp only [value_decode, hw, Payload.wiretype, if_neg hfits, hlow, hhi, Option.bind_eq_bind,
      Option.bind_some, Payload.bytes, hlength, Payload.v, List.drop_zero]
    rfl
  | lend number body =>
    obtain ⟨hn, hhi, hlow⟩ := hp
    simp only [Payload.bytes, List.length_append] at hle hpre
    have hnumber : number.length ≤ cap := by omega
    have hread := decode_peek_eq undef junk hn hnumber
      ((List.prefix_append number body).trans hpre)
    have hfits : ¬(cap < (number.length + body.length) % 2 ^ 32 ∨
        (value undef number).hi ≠ 0) := by
      rw [Nat.mod_eq_of_lt (by omega), hhi]
      rintro (h | h)
      · omega
      · exact h rfl
    simp only [value_decode, hw, Payload.wiretype, hread, Option.bind_eq_bind, Option.bind_some,
      if_neg hfits, Payload.bytes, List.length_append, Payload.v, hlow, Nat.add_assoc]
    rfl
  | bit32 bytes =>
    have hlength : bytes.length = 4 := hp
    have hlow := word_prefix (k := 0) hpre (by simp only [Payload.bytes]; omega)
    have hfits : ¬cap < 4 := by
      simp only [Payload.bytes] at hle
      omega
    rw [Nat.add_zero] at hlow
    simp only [value_decode, hw, Payload.wiretype, if_neg hfits, hlow, Option.bind_eq_bind,
      Option.bind_some, Payload.bytes, hlength, Payload.v, List.drop_zero]
    rfl

theorem wiretype_decode_whole (junk : ℕ → ℕ → UInt8) (hcap : pos + cap = data.length)
    (hlen : data.length < 2 ^ 31)
    {f : Field} (hf : f.Whole undef) (hpre : f.bytes <+: data.drop pos) :
    wiretype_decode undef junk data pos cap =
      some (some (f.atom undef pos, pos + f.bytes.length)) := by
  have hle : f.key.length + f.payload.bytes.length ≤ cap := by
    have := hpre.length_le
    rw [List.length_drop, Field.bytes, List.length_append] at this
    omega
  have hkey : f.key.length ≤ cap := by omega
  have hread := decode_peek_eq undef junk hf.number hkey
    ((List.prefix_append f.key f.payload.bytes).trans hpre)
  have hfits : ¬((value undef f.key).hi ≠ 0 ∨ cap < 10 ∧ cap < f.key.length) := by
    rintro (h | h)
    · exact h hf.hi
    · omega
  have hbehind : f.payload.bytes <+: data.drop (pos + f.key.length) := by
    obtain ⟨rest, hrest⟩ := hpre
    refine ⟨rest, ?_⟩
    rw [← List.drop_drop, ← hrest, Field.bytes, List.append_assoc, List.drop_left]
  simp only [wiretype_decode, hread, Option.bind_eq_bind, Option.bind_some, if_neg hfits]
  rw [value_decode_whole (by omega) hlen hf.payload hf.wiretype hbehind]
  simp only [Field.atom, Field.bytes, List.length_append, Nat.add_assoc]

theorem take_prefix_drop (data : List UInt8) (pos k : ℕ) (hk : pos + k ≤ data.length) :
    (data.drop pos).take k <+: data.drop pos ∧ ((data.drop pos).take k).length = k :=
  ⟨List.take_prefix _ _, by rw [List.length_take, List.length_drop]; omega⟩

/-- What was read as a value is one, or its length has gone round. -/
theorem value_decode_sound (undef : ℕ → ℕ → ℕ) (junk : ℕ → ℕ → UInt8)
    (hcap : pos + cap = data.length) (w : UInt32) :
    value_decode undef junk data w pos cap = some none ∨
    (∃ p : Payload, p.Whole undef ∧ w.toNat &&& 7 = p.wiretype ∧ p.bytes <+: data.drop pos ∧
      value_decode undef junk data w pos cap =
        some (some (⟨w, p.v undef pos⟩, pos + p.bytes.length))) ∨
    w.toNat &&& 7 = WT_LEND ∧ Round undef junk data pos := by
  obtain ⟨number, hn, hs, hread⟩ := decode_peek undef junk hcap
  have hten := hn.length_le
  -- by the wire type: either there is too little left, or what is there is a payload of the type
  by_cases hvarint : w.toNat &&& 7 = WT_VARINT
  · by_cases hfits : cap < 10 ∧ cap < number.length
    · refine .inl ?_
      simp only [value_decode, hvarint, hread, Option.bind_eq_bind, Option.bind_some, if_pos hfits]
      rfl
    · refine .inr (.inl ⟨.varint number, hn, hvarint,
        (stands_peek (l := number) (by omega)).mp hs, ?_⟩)
      simp only [value_decode, hvarint, hread, Option.bind_eq_bind, Option.bind_some,
        if_neg hfits]
      rfl
  by_cases hbit64 : w.toNat &&& 7 = WT_BIT64
  · by_cases hfits : cap < 8
    · refine .inl ?_
      simp only [value_decode, hbit64, if_pos hfits]
    · obtain ⟨hpre, hlength⟩ := take_prefix_drop data pos 8 (by omega)
      refine .inr (.inl ⟨.bit64 _, hlength, hbit64, hpre, ?_⟩)
      have hlow := word_prefix (k := 0) hpre (by omega)
      have hhi := word_prefix (k := 4) hpre (by omega)
      rw [Nat.add_zero] at hlow
      simp only [value_decode, hbit64, if_neg hfits, hlow, hhi, Option.bind_eq_bind,
        Option.bind_some, Payload.bytes, hlength, Payload.v, List.drop_zero]
      rfl
  by_cases hlend : w.toNat &&& 7 = WT_LEND
  -- the sum that is compared with what is left may have gone round
  · by_cases hround : 2 ^ 32 ≤ number.length + (value undef number).low.toNat
    · refine .inr (.inr ⟨hlend, number, hn, ?_, hround⟩)
      rwa [show data.length - pos = cap by omega]
    · by_cases hfits : cap < (number.length + (value undef number).low.toNat) % 2 ^ 32 ∨
          (value undef number).hi ≠ 0
      · refine .inl ?_
        simp only [value_decode, hlend, hread, Option.bind_eq_bind, Option.bind_some,
          if_pos hfits]
        rfl
      · have hle : ¬cap < number.length + (value undef number).low.toNat := fun h =>
          hfits (.inl (by rwa [Nat.mod_eq_of_lt (by omega)]))
        have hhi : (value undef number).hi = 0 := by
          by_contra h
          exact hfits (.inr h)
        have hpre : number <+: data.drop pos := (stands_peek (by omega)).mp hs
        obtain ⟨rest, hrest⟩ := hpre
        have hlength : ((value undef number).low.toNat) ≤ rest.length := by
          have := congrArg List.length hrest
          rw [List.length_append, List.length_drop] at this
          omega
        have hbody : (rest.take (value undef number).low.toNat).length =
            (value undef number).low.toNat := by
          rw [List.length_take]
          omega
        refine .inr (.inl ⟨.lend number (rest.take (value undef number).low.toNat),
          ⟨hn, hhi, hbody.symm⟩, hlend, ?_, ?_⟩)
        · rw [← hrest]
          exact (List.prefix_append_right_inj number).mpr (List.take_prefix _ _)
        · simp only [value_decode, hlend, hread, Option.bind_eq_bind, Option.bind_some,
            if_neg hfits, Payload.v, Payload.bytes, List.length_append, hbody, Nat.add_assoc]
          rfl
  by_cases hbit32 : w.toNat &&& 7 = WT_BIT32
  · by_cases hfits : cap < 4
    · refine .inl ?_
      simp only [value_decode, hbit32, if_pos hfits]
    · obtain ⟨hpre, hlength⟩ := take_prefix_drop data pos 4 (by omega)
      refine .inr (.inl ⟨.bit32 _, hlength, hbit32, hpre, ?_⟩)
      have hlow := word_prefix (k := 0) hpre (by omega)
      rw [Nat.add_zero] at hlow
      simp only [value_decode, hbit32, if_neg hfits, hlow, Option.bind_eq_bind,
        Option.bind_some, Payload.bytes, hlength, Payload.v, List.drop_zero]
      rfl
  · refine .inl ?_
    unfold value_decode
    split
    · exact absurd ‹_› hvarint
    · exact absurd ‹_› hbit64
    · exact absurd ‹_› hlend
    · exact absurd ‹_› hbit32
    · rfl

/-- The same of a whole field; nothing is read outside of the message. -/
theorem wiretype_decode_sound (undef : ℕ → ℕ → ℕ) (junk : ℕ → ℕ → UInt8)
    (hcap : pos + cap = data.length) :
    wiretype_decode undef junk data pos cap = some none ∨
    (∃ f : Field, f.Whole undef ∧ f.bytes <+: data.drop pos ∧
      wiretype_decode undef junk data pos cap =
        some (some (f.atom undef pos, pos + f.bytes.length))) ∨
    ∃ key, Number key ∧ (value undef key).hi = 0 ∧ (value undef key).low.toNat &&& 7 = WT_LEND ∧
      key <+: data.drop pos ∧ Round undef junk data (pos + key.length) := by
  obtain ⟨key, hn, hs, hread⟩ := decode_peek undef junk hcap
  have hten := hn.length_le
  by_cases hfits : (value undef key).hi ≠ 0 ∨ cap < 10 ∧ cap < key.length
  · refine .inl ?_
    simp only [wiretype_decode, hread, Option.bind_eq_bind, Option.bind_some, if_pos hfits]
    rfl
  · have hhi : (value undef key).hi = 0 := by
      by_contra h
      exact hfits (.inl h)
    have hle : key.length ≤ cap := by
      by_contra h
      exact hfits (.inr (by omega))
    have hpre : key <+: data.drop pos := (stands_peek hle).mp hs
    have heq : wiretype_decode undef junk data pos cap =
        value_decode undef junk data (value undef key).low (pos + key.length)
          (cap - key.length) := by
      simp only [wiretype_decode, hread, Option.bind_eq_bind, Option.bind_some, if_neg hfits]
    have hcap' : pos + key.length + (cap - key.length) = data.length := by omega
    rcases value_decode_sound undef junk hcap' (value undef key).low with
      hnone | ⟨p, hp, hw, hbehind, hsome⟩ | ⟨hlend, hround⟩
    · exact .inl (heq.trans hnone)
    · refine .inr (.inl ⟨⟨key, p⟩, ⟨hn, hhi, hw, hp⟩, ?_, ?_⟩)
      · obtain ⟨rest, hrest⟩ := hpre
        rw [← List.drop_drop, ← hrest, List.drop_left] at hbehind
        rw [← hrest]
        exact (List.prefix_append_right_inj key).mpr hbehind
      · rw [heq, hsome]
        simp only [Field.atom, Field.bytes, List.length_append, Nat.add_assoc]
    · exact .inr (.inr ⟨key, hn, hhi, hlend, hpre, hround⟩)

/-! ## The whole message -/

theorem Field.bytes_pos {f : Field} (hf : f.Whole undef) : 0 < f.bytes.length := by
  have hkey : f.key ≠ [] := by
    intro hnil
    have hn := hf.number
    rw [hnil] at hn
    rcases hn with ⟨ht, -⟩ | ⟨hten, -⟩
    · exact ht
    · cases hten
  rw [Field.bytes, List.length_append]
  have := List.length_pos_iff.mpr hkey
  omega

theorem left_eq (pos : ℕ) {size k : ℕ} (hk : k ≤ size) (hsize : size < 2 ^ 31) :
    left size pos (pos + k) = size - k := by
  unfold left
  omega

/-- Behind whole fields the message is read to its end, or to where it is malformed, or there
is a field that is too long. -/
theorem open_fields_sound (hlen : data.length < 2 ^ 31) {turns i size : ℕ} (done : List Field)
    (hdone : ∀ f ∈ done, f.Whole undef) (hpre : done.flatMap Field.bytes <+: data)
    (hpos : (done.flatMap Field.bytes).length = pos) (hsize : pos + size = data.length)
    (hturns : size ≤ turns) :
    (∃ e, open_fields undef junk data turns i pos size = some (.error e)) ∨
    (∃ fs : List Field, (∀ f ∈ fs, f.Whole undef) ∧ data.drop pos = fs.flatMap Field.bytes ∧
      open_fields undef junk data turns i pos size = some (.ok (atoms undef pos fs))) ∨
    Oversized undef junk data := by
  induction turns generalizing i pos size done with
  | zero =>
    obtain rfl : size = 0 := by omega
    refine .inr (.inl ⟨[], by simp, ?_, rfl⟩)
    rw [List.drop_of_length_le (by omega)]
    rfl
  | succ turns ih =>
    by_cases hend : size = 0
    · refine .inr (.inl ⟨[], by simp, ?_, by rw [open_fields, if_pos hend]; rfl⟩)
      rw [List.drop_of_length_le (by omega)]
      rfl
    -- one field is read, and the rest is shorter
    · have hrest : done.flatMap Field.bytes ++ data.drop pos = data := by
        obtain ⟨rest, hrest⟩ := hpre
        rw [← hrest, ← hpos, List.drop_left]
      rcases wiretype_decode_sound undef junk hsize with
        hnone | ⟨f, hf, hfpre, hsome⟩ | ⟨key, hn, hhi, hlend, hkpre, hround⟩
      · refine .inl ⟨i, ?_⟩
        rw [open_fields, if_neg hend, hnone]
        rfl
      · have hfle : f.bytes.length ≤ size := by
          have := hfpre.length_le
          rw [List.length_drop] at this
          omega
        have hfpos := Field.bytes_pos hf
        have hnext := left_eq pos hfle (by omega)
        have hdone' : ∀ g ∈ done ++ [f], g.Whole undef := fun g hg =>
          (List.mem_append.mp hg).elim (hdone g) fun h => List.mem_singleton.mp h ▸ hf
        have hflat : (done ++ [f]).flatMap Field.bytes = done.flatMap Field.bytes ++ f.bytes := by
          simp
        have hbehind : (data.drop pos).drop f.bytes.length = data.drop (pos + f.bytes.length) :=
          List.drop_drop
        have hpre' : (done ++ [f]).flatMap Field.bytes <+: data := by
          rw [hflat, ← hrest]
          exact (List.prefix_append_right_inj _).mpr hfpre
        have hpos' : ((done ++ [f]).flatMap Field.bytes).length = pos + f.bytes.length := by
          rw [hflat, List.length_append, hpos]
        have hsize' : pos + f.bytes.length + (size - f.bytes.length) = data.length := by omega
        rcases (ih (done ++ [f]) hdone' hpre' hpos' hsize' (by omega) :
          (∃ e, open_fields undef junk data turns (i + 1) _ _ = some (.error e)) ∨ _ ∨ _) with
          ⟨e, he⟩ | ⟨fs, hfs, hdata, hok⟩ | hover
        · refine .inl ⟨e, ?_⟩
          simp only [open_fields, if_neg hend, hsome, hnext, he, Option.bind_eq_bind,
            Option.bind_some]
          rfl
        · refine .inr (.inl ⟨f :: fs, List.forall_mem_cons.mpr ⟨hf, hfs⟩, ?_, ?_⟩)
          · obtain ⟨rest, hrest'⟩ := hfpre
            rw [List.flatMap_cons, ← hdata, ← hbehind, ← hrest', List.drop_left]
          · simp only [open_fields, if_neg hend, hsome, hnext, hok, Option.bind_eq_bind,
              Option.bind_some, atoms]
            rfl
        · exact .inr (.inr hover)
      · refine .inr (.inr ⟨done, key, hdone, hn, hhi, hlend, ?_, ?_⟩)
        · rw [← hrest]
          exact (List.prefix_append_right_inj _).mpr hkpre
        · rwa [List.length_append, hpos]

theorem open_fields_whole (hlen : data.length < 2 ^ 31) {fs : List Field}
    (hfs : ∀ f ∈ fs, f.Whole undef) {turns i size : ℕ}
    (hdata : data.drop pos = fs.flatMap Field.bytes)
    (hsize : pos + size = data.length) (hturns : size ≤ turns) :
    open_fields undef junk data turns i pos size = some (.ok (atoms undef pos fs)) := by
  induction fs generalizing turns i pos size with
  | nil =>
    have hend : size = 0 := by
      have := congrArg List.length hdata
      simp only [List.length_drop, List.flatMap_nil, List.length_nil] at this
      omega
    cases turns with
    | zero => rfl
    | succ turns =>
      rw [open_fields, if_pos hend]
      rfl
  | cons f fs ih =>
    have hf := hfs f List.mem_cons_self
    have hpre : f.bytes <+: data.drop pos := by
      rw [hdata, List.flatMap_cons]
      exact List.prefix_append _ _
    have hfle : f.bytes.length ≤ size := by
      have := hpre.length_le
      rw [List.length_drop] at this
      omega
    have hfpos := Field.bytes_pos hf
    have hbehind : data.drop (pos + f.bytes.length) = fs.flatMap Field.bytes := by
      rw [← List.drop_drop, hdata, List.flatMap_cons, List.drop_left]
    cases turns with
    | zero => omega
    | succ turns =>
      have hok : open_fields undef junk data turns (i + 1) (pos + f.bytes.length)
          (size - f.bytes.length) = some (.ok (atoms undef (pos + f.bytes.length) fs)) :=
        ih (fun g hg => hfs g (List.mem_cons_of_mem _ hg)) hbehind (by omega) (by omega)
      simp only [open_fields, if_neg (show size ≠ 0 by omega),
        wiretype_decode_whole junk hsize hlen hf hpre,
        left_eq pos hfle (by omega), hok, Option.bind_eq_bind, Option.bind_some, atoms]
      rfl

/-- The messages that are accepted are the sequences of whole fields, each with the atoms of its
fields, whatever the unset bytes are; and no byte is read but those of the message. -/
theorem pbcC_open_iff (hlen : data.length < 2 ^ 31) (hsize : ¬Oversized undef junk data) :
    pbcC_open undef junk data ≠ none ∧ ∀ as, pbcC_open undef junk data = some (.ok as) ↔
      ∃ fs : List Field, (∀ f ∈ fs, f.Whole undef) ∧ data = fs.flatMap Field.bytes ∧
        as = atoms undef 0 fs := by
  have hsound : (∃ e, pbcC_open undef junk data = some (.error e)) ∨ _ ∨ _ :=
    open_fields_sound hlen [] (by simp) List.nil_prefix rfl (by simp) le_rfl
  have hwhole : ∀ fs : List Field, (∀ f ∈ fs, f.Whole undef) → data = fs.flatMap Field.bytes →
      pbcC_open undef junk data = some (.ok (atoms undef 0 fs)) := fun fs hfs hdata =>
    open_fields_whole hlen hfs hdata (by omega) le_rfl
  refine ⟨fun hnone => ?_, fun as => ⟨fun h => ?_, ?_⟩⟩
  · rcases hsound with ⟨e, he⟩ | ⟨fs, -, -, hok⟩ | hover
    · cases he.symm.trans hnone
    · cases hok.symm.trans hnone
    · exact hsize hover
  · rcases hsound with ⟨e, he⟩ | ⟨fs, hfs, hdata, hok⟩ | hover
    · cases he.symm.trans h
    · cases hok.symm.trans h
      exact ⟨fs, hfs, hdata, rfl⟩
    · exact absurd hover hsize
  · rintro ⟨fs, hfs, hdata, rfl⟩
    exact hwhole fs hfs hdata

/-! ## There is one way to read it -/

theorem stands_list : Stands (fun i => l[i]?) 0 m ↔ m <+: l := by
  rw [List.prefix_iff_getElem?]
  exact forall₂_congr fun j hj => by rw [Nat.zero_add]

theorem Number.prefix_unique {k : List UInt8} (h : Number m) (h' : Number k) (hm : m <+: l)
    (hk : k <+: l) : m = k :=
  h.unique h' (stands_list.mpr hm) (stands_list.mpr hk)

theorem prefix_eq {k : List UInt8} (hm : m <+: l) (hk : k <+: l) (hlen : m.length = k.length) :
    m = k := by
  rw [List.prefix_iff_eq_take.mp hm, List.prefix_iff_eq_take.mp hk, hlen]

theorem Payload.unique {p q : Payload} (hp : p.Whole undef) (hq : q.Whole undef)
    (hw : p.wiretype = q.wiretype) (hpl : p.bytes <+: l) (hql : q.bytes <+: l) : p = q := by
  cases p <;> cases q <;> try cases hw
  case varint.varint => exact congrArg _ (Number.prefix_unique hp hq hpl hql)
  case bit64.bit64 => exact congrArg _ (prefix_eq hpl hql (Eq.trans hp (Eq.symm hq)))
  case bit32.bit32 => exact congrArg _ (prefix_eq hpl hql (Eq.trans hp (Eq.symm hq)))
  case lend.lend number body number' body' =>
    obtain rfl := Number.prefix_unique hp.1 hq.1 ((List.prefix_append _ _).trans hpl)
      ((List.prefix_append _ _).trans hql)
    have heq := prefix_eq hpl hql (by
      rw [Payload.bytes, Payload.bytes, List.length_append, List.length_append, ← hp.2.2, hq.2.2])
    rw [List.append_cancel_left heq]

theorem Field.unique {f g : Field} (hf : f.Whole undef) (hg : g.Whole undef) (hfl : f.bytes <+: l)
    (hgl : g.bytes <+: l) : f = g := by
  obtain ⟨key, p⟩ := f
  obtain ⟨key', q⟩ := g
  have hkey : key = key' := hf.number.prefix_unique hg.number
    ((List.prefix_append _ _).trans hfl) ((List.prefix_append _ _).trans hgl)
  subst hkey
  obtain ⟨rest, rfl⟩ := (List.prefix_append _ _).trans hfl
  have hpayload : p = q := Payload.unique hf.payload hg.payload
    (hf.wiretype.symm.trans hg.wiretype) ((List.prefix_append_right_inj key).mp hfl)
    ((List.prefix_append_right_inj key).mp hgl)
  rw [hpayload]

/-- The fields that a message begins with are the first of its fields. -/
theorem fields_unique {done fs : List Field} (hdone : ∀ f ∈ done, f.Whole undef)
    (hfs : ∀ f ∈ fs, f.Whole undef) {key : List UInt8} (hkey : key ≠ [])
    (hpre : done.flatMap Field.bytes ++ key <+: fs.flatMap Field.bytes) :
    ∃ rest, fs = done ++ rest ∧ key <+: rest.flatMap Field.bytes := by
  induction done generalizing fs with
  | nil => exact ⟨fs, rfl, by simpa using hpre⟩
  | cons d done ih =>
    cases fs with
    | nil =>
      rw [List.flatMap_nil, List.prefix_nil, List.append_eq_nil_iff] at hpre
      exact absurd hpre.2 hkey
    | cons f fs =>
      rw [List.flatMap_cons, List.flatMap_cons, List.append_assoc] at hpre
      obtain rfl : d = f := Field.unique (hdone d List.mem_cons_self) (hfs f List.mem_cons_self)
        ((List.prefix_append _ _).trans hpre) (List.prefix_append _ _)
      obtain ⟨rest, rfl, hrest⟩ := ih (fun g hg => hdone g (List.mem_cons_of_mem _ hg))
        (fun g hg => hfs g (List.mem_cons_of_mem _ hg))
        ((List.prefix_append_right_inj _).mp hpre)
      exact ⟨rest, rfl, hrest⟩

theorem Number.ne_nil (h : Number l) : l ≠ [] := by
  rintro rfl
  rcases h with ⟨ht, -⟩ | ⟨hten, -⟩
  · exact ht
  · cases hten

/-- No field of a message is too long. -/
theorem not_oversized (junk : ℕ → ℕ → UInt8) {fs : List Field} (hfs : ∀ f ∈ fs, f.Whole undef)
    (hlen : (fs.flatMap Field.bytes).length < 2 ^ 31) :
    ¬Oversized undef junk (fs.flatMap Field.bytes) := by
  rintro ⟨done, key, hdone, hn, -, hlend, hpre, number, hnumber, hs, hround⟩
  obtain ⟨rest, rfl, hkey⟩ := fields_unique hdone hfs hn.ne_nil hpre
  cases rest with
  | nil => exact hn.ne_nil (List.prefix_nil.mp hkey)
  | cons f rest =>
    have hf := hfs f (List.mem_append_right _ List.mem_cons_self)
    obtain ⟨key', payload⟩ := f
    have hsame : key = key' := hn.prefix_unique hf.number hkey (by
      rw [List.flatMap_cons, Field.bytes, List.append_assoc]
      exact List.prefix_append _ _)
    subst hsame
    have hw := hf.wiretype
    rw [hlend] at hw
    cases payload <;> try cases hw
    case cons.lend.refl number' body =>
      obtain ⟨hn', -, hlow⟩ := hf.payload
      have hdata : (done ++ ⟨key, .lend number' body⟩ :: rest).flatMap Field.bytes =
          (done.flatMap Field.bytes ++ key) ++ (number' ++ (body ++ rest.flatMap Field.bytes)) := by
        simp [Field.bytes, Payload.bytes]
      rw [hdata] at hs hlen
      simp only [List.length_append] at hlen
      have hthere : Stands (peek junk ((done.flatMap Field.bytes ++ key) ++
          (number' ++ (body ++ rest.flatMap Field.bytes))) (done.flatMap Field.bytes ++ key).length
          (((done.flatMap Field.bytes ++ key) ++
            (number' ++ (body ++ rest.flatMap Field.bytes))).length -
              (done.flatMap Field.bytes ++ key).length)) 0 number' :=
        (stands_peek (by simp only [List.length_append]; omega)).mpr (by
          rw [List.drop_left]
          exact List.prefix_append _ _)
      obtain rfl := hnumber.unique hn' hs hthere
      omega

/-- Field 1 is the number 300, field 2 two bytes. -/
def twoFields : List Field :=
  [⟨[0x08], .varint [0xac, 0x02]⟩, ⟨[0x12], .lend [0x02] [0x68, 0x69]⟩]

theorem twoFields_whole : ∀ f ∈ twoFields, f.Whole fun _ _ => 0 := by
  have hbyte : ∀ b : UInt8, b.toNat < 128 → Number [b] := fun b hb => .inl ⟨hb, by simp⟩
  simp only [twoFields, List.forall_mem_cons, List.not_mem_nil, false_implies, implies_true,
    and_true]
  refine ⟨⟨hbyte _ (by decide), rfl, rfl, .inl ⟨?_, by simp⟩⟩, ⟨hbyte _ (by decide), rfl, rfl,
    hbyte _ (by decide), rfl, rfl⟩⟩
  exact ⟨by decide, (by decide : (2 : UInt8).toNat < 128)⟩

theorem pbcC_open_iff_twoFields :
    pbcC_open (fun _ _ => 0) (fun _ _ => 0) (twoFields.flatMap Field.bytes) =
      some (.ok [⟨8, 300, 0⟩, ⟨18, 5, 7⟩]) :=
  ((pbcC_open_iff (by decide) (not_oversized _ twoFields_whole (by decide))).2 _).mpr
    ⟨twoFields, twoFields_whole, rfl, rfl⟩

/-- A field that claims to be `2 ^ 32 - 5` bytes long takes the reading out of the message. -/
example : pbcC_open (fun _ _ => 0) (fun _ _ => 0)
    [0x0a, 0xfb, 0xff, 0xff, 0xff, 0x0f, 0, 0, 0, 0, 0, 0] = none := by
  decide +kernel

end DnServer.Protobuf
