import DnServer.Bullfight.Room.System

/-!
# The bet a player is offered

`GetSuitableBasebet_1` goes through the bets of every room type up to the one asked for and
keeps the last that passes its test, or of one type the one made for this money. The bet and
the room type it returns belong together. Its test takes an upper limit of zero for none that
matters and any other for none at all: a bet whose limit the player exceeds passes.

* `suitableBet_candidate`, `Candidate.attained`: the bets the search may end with, over
  all orders of the tables, and each by some order.
* `offersAdmitted_iff`: so no order offers more than the player has just when none of
  them is beyond its limit.
-/

namespace DnServer.Bullfight

open DnServer.Lib

namespace RoomService

/-! ## Entries -/

/-- The player has the money for a bet; an upper limit of zero is none. -/
def BetRange.Admits (v : BetRange) (money : ℚ) : Prop :=
  v.minmoney ≤ money ∧ (v.maxmoney = 0 ∨ money < v.maxmoney)

/-- What the inner loop tests. -/
def BetRange.Passes (v : BetRange) (money : ℚ) : Prop :=
  money ≥ v.minmoney ∧ (money < v.maxmoney ∨ v.maxmoney ≠ 0)

instance (v : BetRange) (money : ℚ) : Decidable (v.Passes money) :=
  inferInstanceAs (Decidable (_ ∧ _))

/-- A bet the inner loop may end with, in some order of the bets: the one made for this money
wins over the others. -/
structure Candidate (money : ℚ) (byBet : Table ℤ BetRange) (k : ℤ) (v : BetRange) : Prop where
  entry : byBet.get? k = some v
  passes : v.Passes money
  fits : betFits k money = true ∨
    ∀ k' v', byBet.get? k' = some v' → v'.Passes money → betFits k' money = false

/-- The bets of this room type are looked at. -/
def LooksAt (roomtype i : ℤ) : Prop := roomtype = 0 ∨ roomtype ≥ i

instance (roomtype i : ℤ) : Decidable (LooksAt roomtype i) := inferInstanceAs (Decidable (_ ∨ _))

/-- In every order of the tables, a bet that is found admits the player. -/
def OffersAdmitted (s : State) (gametype roomtype : ℤ) (money : ℚ) : Prop :=
  ∀ t, Rehash s t → ∀ basebet rtype,
    getSuitableBasebet_1 t gametype roomtype money = .ok (basebet, rtype) → basebet ≠ 0 →
      ∃ v, s.fastbasebet.find? gametype rtype basebet = some v ∧ v.Admits money

/-- A bet the search may end with has an upper limit that the player's money reaches. -/
def BeyondLimit (s : State) (gametype roomtype : ℤ) (money : ℚ) : Prop :=
  ∃ byType i byBet k v, s.fastbasebet.get? gametype = some byType ∧ byType.get? i = some byBet ∧
    LooksAt roomtype i ∧ Candidate money byBet k v ∧ k ≠ 0 ∧ v.maxmoney ≠ 0 ∧ v.maxmoney ≤ money

/-! ## Orders of a table -/

section Orders

variable {κ α : Type} [DecidableEq κ]

theorem Reordered.mem {R : α → α → Prop} {s t : Table κ α} (h : Reordered R s t) (k : κ) :
    k ∈ s ↔ k ∈ t := h.1.mem_iff

theorem Reordered.get? {R : α → α → Prop} {s t : Table κ α} (h : Reordered R s t) {k : κ} {w : α}
    (hw : t.get? k = some w) : ∃ v, s.get? k = some v ∧ R v w := by
  obtain ⟨v, hv⟩ := Table.mem_iff_get?.mp ((h.mem k).mpr (Table.mem_of_get? hw))
  exact ⟨v, hv, h.2 k v w hv hw⟩

theorem Reordered.get?_eq {s t : Table κ α} (h : Reordered Eq s t) (k : κ) :
    s.get? k = t.get? k := by
  cases ht : t.get? k with
  | none =>
    rw [Table.get?_eq_none] at ht ⊢
    rwa [h.mem k]
  | some w =>
    obtain ⟨v, hv, rfl⟩ := h.get? ht
    exact hv

/-- A table that has another value for one entry, in whatever order. -/
theorem reordered_of_get? {R : α → α → Prop} (hR : ∀ v, R v v) {t t' : Table κ α} {k : κ} {v w : α}
    (hv : t.get? k = some v) (hw : R v w)
    (ht' : ∀ k', t'.get? k' = if k' = k then some w else t.get? k') : Reordered R t t' := by
  constructor
  · refine (List.perm_ext_iff_of_nodup t.nodup t'.nodup).mpr fun k' => ?_
    show k' ∈ t ↔ k' ∈ t'
    rw [Table.mem_iff_get?, Table.mem_iff_get?, ht']
    by_cases hk : k' = k
    · rw [if_pos hk, hk]
      exact iff_of_true ⟨v, hv⟩ ⟨w, rfl⟩
    · rw [if_neg hk]
  · intro k' v' w' hv' hw'
    rw [ht'] at hw'
    by_cases hk : k' = k
    · rw [if_pos hk] at hw'
      rw [hk, hv] at hv'
      exact Option.some.inj hv' ▸ Option.some.inj hw' ▸ hw
    · rw [if_neg hk, hv'] at hw'
      exact Option.some.inj hw' ▸ hR v'

/-- The same entries with that of `k` at the end, and with value `w`. -/
def toEnd (t : Table κ α) (k : κ) (w : α) : Table κ α := (t.erase k).set k w

theorem toEnd_pairs (t : Table κ α) (k : κ) (w : α) :
    (toEnd t k w).pairs = (t.erase k).pairs ++ [(k, w)] := by
  have habsent := Table.not_mem_erase_self t k
  unfold toEnd Table.set
  rw [dif_neg habsent]

theorem get?_toEnd (t : Table κ α) (k k' : κ) (w : α) :
    (toEnd t k w).get? k' = if k' = k then some w else t.get? k' := by
  unfold toEnd
  rw [Table.get?_set, Table.get?_erase]
  split <;> rfl

/-- Another value for one entry, which goes to the end. -/
theorem reordered_toEnd {R : α → α → Prop} (hR : ∀ v, R v v) {t : Table κ α} {k : κ} {v w : α}
    (hv : t.get? k = some v) (hw : R v w) : Reordered R t (toEnd t k w) :=
  reordered_of_get? hR hv hw fun k' => get?_toEnd t k k' w

theorem reordered_refl {R : α → α → Prop} (hR : ∀ v, R v v) (t : Table κ α) : Reordered R t t := by
  refine ⟨List.Perm.refl _, fun k v w hv hw => ?_⟩
  rw [hv] at hw
  exact Option.some.inj hw ▸ hR v

/-- Another value for one entry in its place. -/
theorem reordered_set {R : α → α → Prop} (hR : ∀ v, R v v) {t : Table κ α} {k : κ} {v w : α}
    (hv : t.get? k = some v) (hw : R v w) : Reordered R t (t.set k w) :=
  reordered_of_get? hR hv hw fun k' => Table.get?_set t k k' w

end Orders

/-! ## The inner loop -/

/-- No two bets are made for the same money. -/
theorem betFits_unique {k k' : ℤ} {money : ℚ} (h : betFits k money = true)
    (h' : betFits k' money = true) : k = k' := by
  unfold betFits at h h'
  simp only [serverconf.basebet, serverconf.changeroom, decide_eq_true_eq] at h h'
  grind

theorem suitableBet_pass {v : BetRange} {money : ℚ} (hv : v.Passes money) (i k : ℤ)
    (found : ℤ × ℤ) (rest : List (ℤ × BetRange)) :
    suitableBet i money found ((k, v) :: rest) =
      if betFits k money then (k, i) else suitableBet i money (k, i) rest := if_pos hv

theorem suitableBet_skip {v : BetRange} {money : ℚ} (hv : ¬v.Passes money) (i k : ℤ)
    (found : ℤ × ℤ) (rest : List (ℤ × BetRange)) :
    suitableBet i money found ((k, v) :: rest) = suitableBet i money found rest := if_neg hv

/-- The loop ends with an entry that passes, and with the one that fits if it is there. -/
theorem suitableBet_cases (i : ℤ) (money : ℚ) (l : List (ℤ × BetRange)) (found : ℤ × ℤ) :
    (suitableBet i money found l = found ∧ ∀ q ∈ l, ¬q.2.Passes money) ∨
    ∃ p ∈ l, p.2.Passes money ∧
      (betFits p.1 money = true ∨ ∀ q ∈ l, q.2.Passes money → betFits q.1 money = false) ∧
      suitableBet i money found l = (p.1, i) := by
  induction l generalizing found with
  | nil => exact .inl ⟨rfl, fun q hq => absurd hq List.not_mem_nil⟩
  | cons head rest ih =>
    obtain ⟨k, v⟩ := head
    by_cases hv : v.Passes money
    · right
      rw [suitableBet_pass hv]
      cases hfit : betFits k money with
      | true => exact ⟨(k, v), List.mem_cons_self, hv, .inl hfit, rfl⟩
      | false =>
        rw [if_neg Bool.false_ne_true]
        obtain ⟨heq, hnone⟩ | ⟨p, hp, hpass, hp', heq⟩ := ih (k, i)
        · refine ⟨(k, v), List.mem_cons_self, hv, .inr fun q hq hpass => ?_, heq⟩
          rcases List.mem_cons.mp hq with rfl | hq
          · exact hfit
          · exact absurd hpass (hnone q hq)
        · refine ⟨p, List.mem_cons_of_mem _ hp, hpass,
            hp'.imp_right fun hnot q hq hq' => ?_, heq⟩
          rcases List.mem_cons.mp hq with rfl | hq
          · exact hfit
          · exact hnot q hq hq'
    · rw [suitableBet_skip hv]
      have hskip : ∀ q ∈ (k, v) :: rest, q.2.Passes money → q ∈ rest := by
        intro q hq hpass
        rcases List.mem_cons.mp hq with rfl | hq
        · exact absurd hpass hv
        · exact hq
      obtain ⟨heq, hnone⟩ | ⟨p, hp, hpass, hp', heq⟩ := ih found
      · exact .inl ⟨heq, fun q hq hpass => hnone q (hskip q hq hpass) hpass⟩
      · exact .inr ⟨p, List.mem_cons_of_mem _ hp, hpass,
          hp'.imp_right fun hnot q hq hq' => hnot q (hskip q hq hq') hq', heq⟩

/-- The entry that fits is found wherever it stands. -/
theorem suitableBet_of_fits {i : ℤ} {money : ℚ} {l : List (ℤ × BetRange)} {p : ℤ × BetRange}
    (hp : p ∈ l) (hpass : p.2.Passes money) (hfit : betFits p.1 money = true) (found : ℤ × ℤ) :
    suitableBet i money found l = (p.1, i) := by
  obtain ⟨-, hnone⟩ | ⟨q, -, -, hq, heq⟩ := suitableBet_cases i money l found
  · exact absurd hpass (hnone p hp)
  · rcases hq with hq | hq
    · rw [heq, betFits_unique hq hfit]
    · exact absurd ((hq p hp hpass).symm.trans hfit) Bool.false_ne_true

/-- Without one the last that passes is found. -/
theorem suitableBet_last {i : ℤ} {money : ℚ} {l : List (ℤ × BetRange)} {p : ℤ × BetRange}
    (hpass : p.2.Passes money)
    (hnot : ∀ q ∈ l, q.2.Passes money → betFits q.1 money = false) (found : ℤ × ℤ) :
    suitableBet i money found (l ++ [p]) = (p.1, i) := by
  induction l generalizing found with
  | nil =>
    obtain ⟨k, v⟩ := p
    rw [List.nil_append, suitableBet_pass hpass]
    split <;> rfl
  | cons head rest ih =>
    obtain ⟨k, v⟩ := head
    have hrest : ∀ q ∈ rest, q.2.Passes money → betFits q.1 money = false := fun q hq =>
      hnot q (List.mem_cons_of_mem _ hq)
    rw [List.cons_append]
    by_cases hv : v.Passes money
    · have hfit : betFits k money = false := hnot (k, v) List.mem_cons_self hv
      rw [suitableBet_pass hv, hfit, if_neg Bool.false_ne_true]
      exact ih hrest (k, i)
    · rw [suitableBet_skip hv]
      exact ih hrest found

/-- What the inner loop ends with is a candidate. -/
theorem suitableBet_candidate (i : ℤ) (money : ℚ) (byBet : Table ℤ BetRange) (found : ℤ × ℤ) :
    suitableBet i money found byBet.pairs = found ∨
    ∃ k v, Candidate money byBet k v ∧ suitableBet i money found byBet.pairs = (k, i) := by
  obtain ⟨heq, -⟩ | ⟨p, hp, hpass, hp', heq⟩ := suitableBet_cases i money byBet.pairs found
  · exact .inl heq
  · refine .inr ⟨p.1, p.2, ⟨Table.get?_of_mem_pairs hp, hpass, hp'.imp_right ?_⟩, heq⟩
    intro hnot k' v' hv'
    exact hnot (k', v') (Table.get?_eq_some.mp hv')

/-- Every candidate is what it ends with in some order. -/
theorem Candidate.attained {money : ℚ} {byBet : Table ℤ BetRange} {k : ℤ} {v : BetRange}
    (h : Candidate money byBet k v) (i : ℤ) (found : ℤ × ℤ) :
    suitableBet i money found (toEnd byBet k v).pairs = (k, i) := by
  have hmem : (k, v) ∈ (toEnd byBet k v).pairs := by
    rw [toEnd_pairs]
    exact List.mem_append_right _ (List.mem_singleton_self _)
  rcases h.fits with hfit | hnot
  · exact suitableBet_of_fits hmem h.passes hfit found
  · rw [toEnd_pairs]
    refine suitableBet_last (p := (k, v)) h.passes (fun q hq => ?_) found
    have hq' := Table.get?_of_mem_pairs hq
    rw [Table.get?_erase] at hq'
    by_cases hqk : q.1 = k
    · rw [if_pos hqk] at hq'
      cases hq'
    · rw [if_neg hqk] at hq'
      exact hnot q.1 q.2 hq'

/-- A candidate in one order is one in every order. -/
theorem Candidate.reordered {money : ℚ} {s t : Table ℤ BetRange} (hst : Reordered Eq s t) {k : ℤ}
    {v : BetRange} (h : Candidate money t k v) : Candidate money s k v := by
  refine ⟨(hst.get?_eq k).trans h.entry, h.passes, h.fits.imp_right fun hnot k' v' hv' => ?_⟩
  exact hnot k' v' ((hst.get?_eq k').symm.trans hv')

/-! ## The outer loop -/

/-- The outer loop at one room type. -/
def suitableType (roomtype : ℤ) (money : ℚ) (found : ℤ × ℤ) (p : ℤ × Table ℤ BetRange) : ℤ × ℤ :=
  if LooksAt roomtype p.1 then suitableBet p.1 money found p.2.pairs else found

theorem getSuitableBasebet_1_eq (s : State) {gametype : ℤ} {byType : Table ℤ (Table ℤ BetRange)}
    (h : s.fastbasebet.get? gametype = some byType) (roomtype : ℤ) (money : ℚ) :
    getSuitableBasebet_1 s gametype roomtype money =
      .ok (byType.pairs.foldl (suitableType roomtype money) (0, roomtype)) := by
  unfold getSuitableBasebet_1
  rw [h]
  rfl

/-- The bet that is found and its room type belong together. -/
theorem foldl_suitableType (roomtype : ℤ) (money : ℚ) (l : List (ℤ × Table ℤ BetRange))
    (found : ℤ × ℤ) : l.foldl (suitableType roomtype money) found = found ∨
    ∃ p ∈ l, LooksAt roomtype p.1 ∧ ∃ k v, Candidate money p.2 k v ∧
      l.foldl (suitableType roomtype money) found = (k, p.1) := by
  induction l generalizing found with
  | nil => exact .inl rfl
  | cons p rest ih =>
    rw [List.foldl_cons]
    obtain heq | ⟨q, hq, hlook, k, v, hcand, heq⟩ := ih (suitableType roomtype money found p)
    · rw [heq]
      unfold suitableType
      by_cases hlook : LooksAt roomtype p.1
      · rw [if_pos hlook]
        obtain hsame | ⟨k, v, hcand, hnew⟩ := suitableBet_candidate p.1 money p.2 found
        · exact .inl hsame
        · exact .inr ⟨p, List.mem_cons_self, hlook, k, v, hcand, hnew⟩
      · rw [if_neg hlook]
        exact .inl rfl
    · exact .inr ⟨q, List.mem_cons_of_mem _ hq, hlook, k, v, hcand, heq⟩

/-! ## Every order -/

/-- The room types with one of them at the end, and in it one bet at the end. -/
def offeredLast (s : State) (gametype : ℤ) (byType : Table ℤ (Table ℤ BetRange)) (i : ℤ)
    (byBet : Table ℤ BetRange) (k : ℤ) (v : BetRange) : State :=
  { s with fastbasebet := s.fastbasebet.set gametype (toEnd byType i (toEnd byBet k v)) }

theorem sameRoom_refl (room : Room) : SameRoom room room :=
  ⟨room.seats, room.users, List.Perm.refl _, List.Perm.refl _, rfl⟩

theorem Rehash.refl (s : State) : Rehash s s :=
  ⟨reordered_refl sameRoom_refl _, reordered_refl (reordered_refl (reordered_refl fun _ => rfl)) _,
    reordered_refl (reordered_refl (reordered_refl fun _ => rfl)) _⟩

theorem Rehash.offeredLast {s : State} {gametype i k : ℤ} {byType : Table ℤ (Table ℤ BetRange)}
    {byBet : Table ℤ BetRange} {v : BetRange} (hgame : s.fastbasebet.get? gametype = some byType)
    (htype : byType.get? i = some byBet) (hbet : byBet.get? k = some v) :
    Rehash s (offeredLast s gametype byType i byBet k v) := by
  have hbets : Reordered Eq byBet (toEnd byBet k v) := reordered_toEnd (fun _ => rfl) hbet rfl
  have htypes : Reordered (Reordered Eq) byType (toEnd byType i (toEnd byBet k v)) :=
    reordered_toEnd (fun t => reordered_refl (fun _ => rfl) t) htype hbets
  obtain ⟨hrooms, hfastroom, -⟩ := Rehash.refl s
  exact ⟨hrooms, hfastroom,
    reordered_set (reordered_refl (reordered_refl fun _ => rfl)) hgame htypes⟩

/-- What is found admits the player in every order of the tables, exactly if no bet the
search may end with has an upper limit that the money reaches. -/
theorem offersAdmitted_iff (s : State) (gametype roomtype : ℤ) (money : ℚ) :
    OffersAdmitted s gametype roomtype money ↔ ¬BeyondLimit s gametype roomtype money := by
  constructor
  · rintro hoffers ⟨byType, i, byBet, k, v, hgame, htype, hlook, hcand, hk, hmax, hover⟩
    have hgame' : (offeredLast s gametype byType i byBet k v).fastbasebet.get? gametype =
        some (toEnd byType i (toEnd byBet k v)) := Table.get?_set_self _ _ _
    have hfound : getSuitableBasebet_1 (offeredLast s gametype byType i byBet k v) gametype
        roomtype money = .ok (k, i) := by
      rw [getSuitableBasebet_1_eq _ hgame', toEnd_pairs, List.foldl_append, List.foldl_cons,
        List.foldl_nil]
      unfold suitableType
      rw [if_pos hlook, hcand.attained]
    obtain ⟨w, hw, -, hadmits⟩ :=
      hoffers _ (.offeredLast hgame htype hcand.entry) k i hfound hk
    have hvw : s.fastbasebet.find? gametype i k = some v := by
      unfold ByBet.find?
      rw [hgame, Option.bind_some, htype, Option.bind_some, hcand.entry]
    rw [hvw] at hw
    obtain rfl := Option.some.inj hw
    exact hadmits.elim hmax fun hlt => absurd hover (not_le.mpr hlt)
  · intro hnot t ht basebet rtype hfound hbet
    obtain ⟨-, -, hgames⟩ := ht
    cases hgame' : t.fastbasebet.get? gametype with
    | none =>
      unfold getSuitableBasebet_1 at hfound
      rw [hgame'] at hfound
      cases hfound
    | some byType' =>
      obtain ⟨byType, hgame, htypes⟩ := hgames.get? hgame'
      rw [getSuitableBasebet_1_eq t hgame'] at hfound
      have hfound := Except.ok.inj hfound
      obtain heq | ⟨p, hp, hlook, k, v, hcand, heq⟩ :=
        foldl_suitableType roomtype money byType'.pairs (0, roomtype)
      · rw [heq] at hfound
        exact absurd (Prod.mk.inj hfound).1.symm hbet
      · rw [heq] at hfound
        obtain ⟨rfl, rfl⟩ := Prod.mk.inj hfound
        obtain ⟨byBet, htype, hbets⟩ := htypes.get? (Table.get?_of_mem_pairs hp)
        have hcand := hcand.reordered hbets
        refine ⟨v, ?_, hcand.passes.1, ?_⟩
        · unfold ByBet.find?
          rw [hgame, Option.bind_some, htype, Option.bind_some, hcand.entry]
        · by_contra hover
          obtain ⟨hmax, hle⟩ := not_or.mp hover
          exact hnot ⟨byType, p.1, byBet, k, v, hgame, htype, hlook, hcand, hbet, hmax,
            not_lt.mp hle⟩

/-- The one bet of `oneRoom` is for money below 1, and is found for a player with 100. -/
theorem over_the_limit : ¬OffersAdmitted oneRoom 11 1 100 ∧
    getSuitableBasebet_1 oneRoom 11 1 100 = .ok (50, 1) := by
  have hfound : getSuitableBasebet_1 oneRoom 11 1 100 = .ok (50, 1) := by decide +kernel
  have hentry : oneRoom.fastbasebet.find? 11 1 50 = some ⟨0, 1⟩ := by decide +kernel
  refine ⟨fun hoffers => ?_, hfound⟩
  obtain ⟨v, hv, hadmits⟩ := hoffers oneRoom (.refl oneRoom) 50 1 hfound (by decide)
  rw [hentry] at hv
  obtain rfl := Option.some.inj hv
  revert hadmits
  unfold BetRange.Admits
  decide +kernel

end RoomService

end DnServer.Bullfight
