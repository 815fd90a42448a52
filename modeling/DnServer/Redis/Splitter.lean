import DnServer.Redis.Reply
import DnServer.Lib.Decoder

/-!
# Splitting the reply stream

`split_co` over the buffer is an incremental decoder over the unread bytes:
what it can do with the bytes it has it can still do when more arrive. Drained
from the top, the encoding of a reply gives the one call of `response` for that
reply and no sooner than with its last byte.
-/

namespace DnServer.Redis

open DnServer.Lib

/-! ## The decoder -/

/-- `Buffer.fetch` on the unread bytes. -/
def fetchBytes : Want → Bytes → Option (Bytes × Bytes)
  | .line, l => Buffer.cut CRLF l
  | .bytes n, l => if n ≤ l.length then some (l.take n, l.drop n) else none
  | .nothing, _ => none

theorem Buffer.fetch_eq (b : Buffer) (w : Want) :
    (b.fetch w).map (fun p => (p.1, p.2.unread)) = fetchBytes w b.unread := by
  cases w with
  | line => exact b.readline_eq (by decide)
  | bytes n => exact b.readBytes_eq n
  | nothing => rfl

/-- Reading leaves the block as it is. -/
theorem Buffer.fetch_buffer {b b' : Buffer} {w : Want} {data : Bytes}
    (h : b.fetch w = some (data, b')) : b'.buffer = b.buffer := by
  cases w with
  | line =>
    replace h : b.readline CRLF = some (data, b') := h
    unfold Buffer.readline at h
    split at h
    · cases h
    · cases h
      rfl
  | bytes n =>
    obtain ⟨hle, heq⟩ := Option.dite_none_right_eq_some.mp (show b.readBytes n = _ from h)
    cases heq
    rfl
  | nothing => cases h

theorem fetchBytes_lt {p : Point} {l data rest : Bytes}
    (h : fetchBytes p.wants l = some (data, rest)) : rest.length < l.length := by
  have hline : ∀ {d}, Buffer.cut CRLF l = some (d, rest) → rest.length < l.length := by
    intro d hd
    have := Buffer.cut_length hd
    simp only [CRLF, List.length_cons, List.length_nil] at this
    omega
  have hbytes : ∀ {n : ℕ}, fetchBytes (.bytes (n + 2)) l = some (data, rest) →
      rest.length < l.length := by
    intro n hn
    simp only [fetchBytes, Option.ite_none_right_eq_some, Option.some.injEq, Prod.mk.injEq] at hn
    obtain ⟨hle, -, rfl⟩ := hn
    rw [List.length_drop]
    omega
  cases p with
  | top => exact hline h
  | bulk n => exact hbytes h
  | line left got => exact hline h
  | element left got n => exact hbytes h
  | dead => cases h

theorem fetchBytes_append {w : Want} {l data rest : Bytes}
    (h : fetchBytes w l = some (data, rest)) (more : Bytes) :
    fetchBytes w (l ++ more) = some (data, rest ++ more) := by
  cases w with
  | line => exact Buffer.cut_append h more
  | bytes n =>
    simp only [fetchBytes, Option.ite_none_right_eq_some, Option.some.injEq, Prod.mk.injEq] at h
    obtain ⟨hle, rfl, rfl⟩ := h
    rw [fetchBytes, if_pos (by rw [List.length_append]; omega), List.take_append_of_le_length hle,
      List.drop_append_of_le_length hle]
  | nothing => cases h

/-- One stretch of `split_co`, with the calls of `response` it makes. -/
def splitStep (p : Point) (l : Bytes) : Option (Drained Point UInt8 (Bool × Value)) :=
  (fetchBytes p.wants l).map fun r => ⟨(p.resumed r.1).1.toList, (p.resumed r.1).2, r.2⟩

theorem splitStep_eq_some {p : Point} {l : Bytes} {d : Drained Point UInt8 (Bool × Value)} :
    splitStep p l = some d ↔ ∃ data, fetchBytes p.wants l = some (data, d.rest) ∧
      d.out = (p.resumed data).1.toList ∧ d.state = (p.resumed data).2 := by
  unfold splitStep
  rw [Option.map_eq_some_iff]
  constructor
  · rintro ⟨⟨data, rest⟩, h, rfl⟩
    exact ⟨data, h, rfl, rfl⟩
  · rintro ⟨data, h, hout, hstate⟩
    obtain ⟨out, state, rest⟩ := d
    obtain rfl : out = _ := hout
    obtain rfl : state = _ := hstate
    exact ⟨(data, rest), h, rfl⟩

/-- `split_co` as a decoder of the unread bytes. -/
def splitter : Decoder Point UInt8 (Bool × Value) where
  step := splitStep
  consumes h := by
    obtain ⟨data, hf, -⟩ := splitStep_eq_some.mp h
    exact fetchBytes_lt hf
  stable h more := by
    obtain ⟨data, hf, hout, hstate⟩ := splitStep_eq_some.mp h
    exact splitStep_eq_some.mpr ⟨data, fetchBytes_append hf more, hout, hstate⟩

/-- It is at the top again exactly after a call of `response`. -/
theorem resumed_top (p : Point) (data : Bytes) :
    (p.resumed data).2 = .top ↔ (p.resumed data).1.isSome := by
  have hnext : ∀ left got, (nextElement left got).2 = .top ↔ (nextElement left got).1.isSome := by
    intro left got
    cases left <;> simp [nextElement]
  cases p with
  | top =>
    cases data with
    | nil => simp [Point.resumed]
    | cons firstchar data =>
      simp only [Point.resumed, redcmd]
      split
      · unfold redcmd42
        cases tonumber data with
        | none => simp
        | some n =>
          show (if n < 0 then _ else _ : Turn).2 = _ ↔ (if n < 0 then _ else _ : Turn).1.isSome
          split
          · simp
          · exact hnext _ _
      · split
        · unfold redcmd36
          cases tonumber data with
          | none => simp
          | some n =>
            show (if n < 0 then _ else _ : Turn).2 = _ ↔ (if n < 0 then _ else _ : Turn).1.isSome
            split <;> simp
        · split
          · simp [redcmd43]
          · split
            · simp [redcmd45]
            · split <;> simp [redcmd58]
  | bulk n => simp [Point.resumed]
  | line left got =>
    simp only [Point.resumed]
    cases tonumber (data.drop 1) with
    | none => simp
    | some n =>
      show (if n < 0 then _ else _ : Turn).2 = _ ↔ (if n < 0 then _ else _ : Turn).1.isSome
      split
      · exact hnext _ _
      · simp
  | element left got n => exact hnext _ _
  | dead => simp [Point.resumed]

theorem splitter_home {p : Point} {l : Bytes} {d : Drained Point UInt8 (Bool × Value)}
    (h : splitter.step p l = some d) (hd : d.state = .top) : d.out ≠ [] := by
  obtain ⟨data, -, hout, hstate⟩ := splitStep_eq_some.mp h
  have hsome := (resumed_top p data).mp (hstate ▸ hd)
  rw [hout]
  obtain ⟨x, hx⟩ := Option.isSome_iff_exists.mp hsome
  rw [hx]
  exact List.cons_ne_nil _ _

/-! ## Draining a reply -/

/-- The stream is drained on from a turn of the coroutine. -/
def follow (turn : Turn) (l : Bytes) : Drained Point UInt8 (Bool × Value) :=
  ⟨turn.1.toList ++ (splitter.drain turn.2 l).out, (splitter.drain turn.2 l).state,
    (splitter.drain turn.2 l).rest⟩

theorem follow_none (p : Point) (l : Bytes) : follow (none, p) l = splitter.drain p l := rfl

/-- A line without CR ends at the CRLF behind it. -/
theorem cut_line {line : Bytes} (h : 13 ∉ line) (rest : Bytes) :
    Buffer.cut CRLF (line ++ CRLF ++ rest) = some (line, rest) := by
  induction line with
  | nil => rfl
  | cons x line ih =>
    rw [List.mem_cons, not_or] at h
    simp only [List.cons_append, Buffer.cut]
    have hpre : ¬ CRLF <+: x :: (line ++ CRLF ++ rest) := by
      rintro ⟨t, ht⟩
      exact h.1 (List.cons.inj ht).1
    rw [if_neg hpre, ih h.2]
    rfl

theorem drain_line {p : Point} (hp : p.wants = .line) (line : Bytes) (h : 13 ∉ line)
    (rest : Bytes) : splitter.drain p (line ++ CRLF ++ rest) = follow (p.resumed line) rest := by
  have hstep : splitter.step p (line ++ CRLF ++ rest) =
      some ⟨(p.resumed line).1.toList, (p.resumed line).2, rest⟩ := by
    apply splitStep_eq_some.mpr
    exact ⟨line, by rw [hp]; exact cut_line h rest, rfl, rfl⟩
  exact splitter.drain_of_step hstep

theorem drain_bytes {p : Point} {s : Bytes} (hp : p.wants = .bytes (s.length + 2))
    (rest : Bytes) :
    splitter.drain p (s ++ CRLF ++ rest) = follow (p.resumed (s ++ CRLF)) rest := by
  have hlen : (s ++ CRLF).length = s.length + 2 := by rw [List.length_append]; rfl
  have hstep : splitter.step p (s ++ CRLF ++ rest) =
      some ⟨(p.resumed (s ++ CRLF)).1.toList, (p.resumed (s ++ CRLF)).2, rest⟩ := by
    apply splitStep_eq_some.mpr
    refine ⟨s ++ CRLF, ?_, rfl, rfl⟩
    rw [hp, fetchBytes, if_pos (by rw [List.length_append, hlen]; omega), ← hlen, List.take_left,
      List.drop_left]
  exact splitter.drain_of_step hstep

theorem not_mem_decimal (n : ℕ) : (13 : UInt8) ∉ decimal n := by
  intro h
  exact absurd (mem_decimal h).1 (by decide)

theorem not_mem_decimalInt (n : ℤ) : (13 : UInt8) ∉ decimalInt n := by
  unfold decimalInt
  split
  · rw [List.mem_cons, not_or]
    exact ⟨by decide, not_mem_decimal _⟩
  · exact not_mem_decimal _

@[simp]
theorem chop_append (s : Bytes) : chop (s ++ CRLF) = s := by
  simp [chop, CRLF]

theorem not_mem_length {c : UInt8} (hc : c ≠ 13) (n : ℕ) : (13 : UInt8) ∉ c :: decimal n := by
  rw [List.mem_cons, not_or]
  exact ⟨hc.symm, not_mem_decimal n⟩

/-- A length read back is not negative. -/
theorem length_not_neg (n : ℕ) : ¬ (n : ℤ) < 0 := by omega

/-- The elements of a multi-bulk, from the round of the loop that reads the first of
them: the null ones leave no trace in the table. -/
theorem follow_elements {l : List (Option Bytes)} (hl : ∀ s, some s ∈ l → Reply.FitsBulk s)
    (got : List Bytes) (rest : Bytes) :
    follow (nextElement l.length got) ((l.map encodeElement).flatten ++ rest) =
      follow (some (true, .table (got ++ l.reduceOption)), .top) rest := by
  induction l generalizing got with
  | nil => simp [nextElement]
  | cons e l ih =>
    have hl' : ∀ s, some s ∈ l → Reply.FitsBulk s := fun s hs => hl s (List.mem_cons_of_mem _ hs)
    rw [List.length_cons, List.map_cons, List.flatten_cons, List.append_assoc]
    show splitter.drain (.line (l.length + 1) got) _ = _
    cases e with
    | none =>
      rw [encodeElement, drain_line rfl _ (by decide)]
      show follow (nextElement l.length got) _ = _
      rw [ih hl', List.reduceOption_cons_of_none]
    | some s =>
      have hs := (hl s List.mem_cons_self).exact
      rw [encodeElement, List.append_assoc, drain_line rfl _ (not_mem_length (by decide) _)]
      have hturn : (Point.line (l.length + 1) got).resumed (36 :: decimal s.length) =
          (none, .element (l.length + 1) got s.length) := by
        simp only [Point.resumed, List.drop_succ_cons, List.drop_zero, tonumber_length hs,
          length_not_neg, if_false, Int.toNat_natCast]
      rw [hturn, follow_none, drain_bytes rfl]
      show follow (nextElement l.length (got ++ [chop (s ++ CRLF)])) _ = _
      rw [chop_append, ih hl', List.reduceOption_cons_of_some, List.append_assoc]
      rfl

/-- The bytes of a reply give the one call of `response` for it. -/
theorem drain_reply {r : Reply} (hr : r.WellFormed) (rest : Bytes) :
    splitter.drain .top (r.encode ++ rest) = follow (some r.decoded, .top) rest := by
  have hbulk : ∀ s : Bytes, s.length < 2 ^ 53 →
      splitter.drain .top (encodeElement (some s) ++ rest) =
        follow (some (true, .string s), .top) rest := by
    intro s hs
    rw [encodeElement, List.append_assoc, drain_line rfl _ (not_mem_length (by decide) _)]
    have hturn : Point.top.resumed (36 :: decimal s.length) = (none, .bulk s.length) := by
      show redcmd36 (decimal s.length) = _
      simp only [redcmd36, tonumber_length hs, length_not_neg, if_false, Int.toNat_natCast]
    rw [hturn, follow_none, drain_bytes rfl]
    show follow (some (true, .string (chop (s ++ CRLF))), .top) rest = _
    rw [chop_append]
  cases r with
  | status s =>
    have hs : 13 ∉ 43 :: s := by
      rw [List.mem_cons, not_or]
      exact ⟨by decide, hr.1⟩
    exact drain_line rfl _ hs rest
  | error s =>
    have hs : 13 ∉ 45 :: s := by
      rw [List.mem_cons, not_or]
      exact ⟨by decide, hr.1⟩
    exact drain_line rfl _ hs rest
  | integer n =>
    have hn : (13 : UInt8) ∉ 58 :: decimalInt n := by
      rw [List.mem_cons, not_or]
      exact ⟨by decide, not_mem_decimalInt n⟩
    rw [Reply.encode, drain_line rfl _ hn]
    show follow (redcmd58 (decimalInt n)) rest = _
    rw [redcmd58, tonumber_decimalInt]
    rfl
  | bulk s => exact hbulk s hr.exact
  | null => exact drain_line rfl [36, 45, 49] (by decide) rest
  | multi l =>
    rw [Reply.encode, List.append_assoc, drain_line rfl _ (not_mem_length (by decide) _)]
    have hturn : Point.top.resumed (42 :: decimal l.length) = nextElement l.length [] := by
      show redcmd42 (decimal l.length) = _
      simp only [redcmd42, tonumber_length hr.1, length_not_neg, if_false, Int.toNat_natCast]
    rw [hturn, follow_elements hr.2]
    rfl
  | nullMulti => exact drain_line rfl [42, 45, 49] (by decide) rest

/-! ## Draining part of the stream -/

/-- The bytes the server sends for a list of replies. -/
def stream (rs : List Reply) : Bytes := (rs.map Reply.encode).flatten

/-- The replies whose last byte has arrived. -/
def complete : List Reply → Bytes → List Reply
  | [], _ => []
  | r :: rs, l => if r.encode <+: l then r :: complete rs (l.drop r.encode.length) else []

theorem drain_stream {rs : List Reply} (h : ∀ r ∈ rs, r.WellFormed) :
    splitter.drain .top (stream rs) = ⟨rs.map Reply.decoded, .top, []⟩ := by
  induction rs with
  | nil => rfl
  | cons r rs ih =>
    show splitter.drain .top (r.encode ++ stream rs) = _
    rw [drain_reply (h r List.mem_cons_self), follow, ih fun x hx => h x (List.mem_cons_of_mem _ hx)]
    rfl

/-- A reply of which bytes are still missing has not been answered. -/
theorem drain_partial {r : Reply} (hr : r.WellFormed) {l more : Bytes} (hl : r.encode = l ++ more)
    (hmore : more ≠ []) : (splitter.drain .top l).out = [] := by
  have hall := drain_reply hr []
  rw [List.append_nil, hl, splitter.drain_append] at hall
  obtain ⟨hout, hstate, hrest⟩ := Drained.mk.inj hall
  by_contra hne
  -- the call is made within `l`, so what is missing is drained in silence
  obtain ⟨x, xs, hx⟩ := List.exists_cons_of_ne_nil hne
  rw [hx] at hout
  obtain ⟨-, hsilent⟩ := List.append_eq_nil_iff.mp (List.cons.inj hout).2
  have hkeep := splitter.rest_of_silent splitter_home _ _ hsilent hstate
  rw [hkeep] at hrest
  exact hmore (List.append_eq_nil_iff.mp hrest).2

/-- The calls of `response` are those for the complete replies. -/
theorem drain_complete {rs : List Reply} (h : ∀ r ∈ rs, r.WellFormed) {l : Bytes}
    (hl : l <+: stream rs) : (splitter.drain .top l).out = (complete rs l).map Reply.decoded := by
  induction rs generalizing l with
  | nil =>
    obtain rfl := List.prefix_nil.mp hl
    rfl
  | cons r rs ih =>
    have hr := h r List.mem_cons_self
    have hcut : l <+: r.encode ++ stream rs := hl
    simp only [complete]
    split
    · rename_i hpre
      obtain ⟨l', rfl⟩ := hpre
      rw [List.drop_left, drain_reply hr, follow, List.map_cons,
        ← ih (fun x hx => h x (List.mem_cons_of_mem _ hx)) ((List.prefix_append_right_inj _).mp hcut)]
      rfl
    · rename_i hpre
      have hpart : l <+: r.encode :=
        (List.prefix_or_prefix_of_prefix hcut (List.prefix_append _ _)).resolve_right hpre
      obtain ⟨more, hmore⟩ := hpart
      apply drain_partial hr hmore.symm
      rintro rfl
      rw [List.append_nil] at hmore
      exact hpre (hmore ▸ List.prefix_rfl)

/-- A stream of well-formed replies never kills the coroutine. -/
theorem drain_not_dead {rs : List Reply} (h : ∀ r ∈ rs, r.WellFormed) {l : Bytes}
    (hl : l <+: stream rs) : (splitter.drain .top l).state ≠ .dead := by
  obtain ⟨more, hmore⟩ := hl
  have hall := drain_stream h
  rw [← hmore, splitter.drain_append] at hall
  obtain ⟨-, hstate, -⟩ := Drained.mk.inj hall
  intro hdead
  rw [hdead, splitter.drain_of_none rfl] at hstate
  cases hstate

end DnServer.Redis
