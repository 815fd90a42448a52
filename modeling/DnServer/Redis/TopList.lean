import DnServer.Redis.Stream

/-!
# Records sliced from a flat reply

`GetTopList` and `GetTopList1` of `myredis.lua` ask for the fields of every
player in one flat multi-bulk and count through it: six fields a player, or
nine. The count is right as long as the decoded table has every element where
the reply has it. A null element is not inserted, so what stands behind it moves
up by one.
-/

namespace DnServer.Redis

open DnServer.Lib

/-! ## Counting through a table -/

section Records

variable {P : Type*} (set : ℕ → Bytes → P → P) (k : ℕ) (empty : P)

/-- The loop of `GetTopList`: the `num`-th field of `player` is set, and with the `k`-th
the player is done. -/
def records : List Bytes → P → ℕ → List P
  | [], _, _ => []
  | v :: players, player, num =>
    let player := set num v player
    if num = k then player :: records players empty 1 else records players player (num + 1)

/-- Fields set one after the other, from the `num`-th on. -/
def fill : List Bytes → ℕ → P → P
  | [], _, player => player
  | v :: fields, num, player => fill fields (num + 1) (set num v player)

variable {set k empty}

/-- As many fields as the player misses make it complete. -/
theorem records_full {fields : List Bytes} (players : List Bytes) {player : P} {num : ℕ}
    (hne : fields ≠ []) (hlen : num + fields.length = k + 1) :
    records set k empty (fields ++ players) player num =
      fill set fields num player :: records set k empty players empty 1 := by
  induction fields generalizing player num with
  | nil => exact absurd rfl hne
  | cons v fields ih =>
    simp only [List.cons_append, records, fill]
    rw [List.length_cons] at hlen
    rcases fields with _ | ⟨w, fields⟩
    · rw [if_pos (by simpa using hlen)]
      rfl
    · rw [List.length_cons] at hlen
      rw [if_neg (by omega), ih (List.cons_ne_nil _ _) (by rw [List.length_cons]; omega)]

/-- Fewer make none. -/
theorem records_short {fields : List Bytes} {player : P} {num : ℕ}
    (hlen : num + fields.length ≤ k) : records set k empty fields player num = [] := by
  induction fields generalizing player num with
  | nil => rfl
  | cons v fields ih =>
    rw [List.length_cons] at hlen
    rw [records, if_neg (by omega), ih (by omega)]

/-- With fewer than `k` elements there is no player; otherwise the first `k` make one. -/
theorem records_cases (players : List Bytes) (hk : 0 < k) :
    records set k empty players empty 1 = [] ∨ (players.take k).length = k ∧
      records set k empty players empty 1 = fill set (players.take k) 1 empty ::
        records set k empty (players.drop k) empty 1 := by
  rcases Nat.lt_or_ge players.length k with hlt | hge
  · exact .inl (records_short (by omega))
  · have hlen : (players.take k).length = k := by rw [List.length_take]; omega
    have hne : players.take k ≠ [] := List.ne_nil_of_length_pos (by omega)
    refine .inr ⟨hlen, ?_⟩
    rw [← records_full _ hne (by omega), List.take_append_drop]

/-- The `j`-th player is made of the `j`-th `k` elements of the table. -/
theorem records_getElem {players : List Bytes} {j : ℕ} {p : P} (hk : 0 < k)
    (h : (records set k empty players empty 1)[j]? = some p) :
    ((players.drop (k * j)).take k).length = k ∧
      p = fill set ((players.drop (k * j)).take k) 1 empty := by
  induction j generalizing players with
  | zero =>
    rcases records_cases players hk with hnil | ⟨hlen, hcons⟩
    · rw [hnil] at h
      cases h
    · rw [hcons] at h
      exact ⟨hlen, (Option.some.inj h).symm⟩
  | succ j ih =>
    rcases records_cases players hk with hnil | ⟨-, hcons⟩
    · rw [hnil] at h
      cases h
    · rw [hcons, List.getElem?_cons_succ] at h
      have := ih h
      rwa [List.drop_drop, Nat.add_comm, ← Nat.mul_succ] at this

end Records

/-! ## The lists -/

section Lists

variable {N : Type*}

/-- A player of `GetTopList`. -/
structure TopPlayer (N : Type*) where
  uid : Option N
  money : Option N
  score : Option N
  info : Option Bytes
  qq_vip : Option N
  vip : Option N
  deriving DecidableEq, Repr

/-- A player of `GetTopList1`. -/
structure TopPlayer1 (N : Type*) extends TopPlayer N where
  dayhonor : Option N
  weekhonor : Option N
  time : Option N
  deriving DecidableEq, Repr

def TopPlayer.empty : TopPlayer N := ⟨none, none, none, none, none, none⟩

def TopPlayer1.empty : TopPlayer1 N := ⟨.empty, none, none, none⟩

/-- `parse` is what `tonumber` makes of a field. -/
def TopPlayer.set (parse : Bytes → Option N) (num : ℕ) (v : Bytes) (player : TopPlayer N) :
    TopPlayer N :=
  match num with
  | 1 => { player with uid := parse v }
  | 2 => { player with money := parse v }
  | 3 => { player with score := parse v }
  | 4 => { player with info := some v }
  | 5 => { player with qq_vip := parse v }
  | 6 => { player with vip := parse v }
  | _ => player

def TopPlayer1.set (parse : Bytes → Option N) (num : ℕ) (v : Bytes) (player : TopPlayer1 N) :
    TopPlayer1 N :=
  match num with
  | 7 => { player with dayhonor := parse v }
  | 8 => { player with weekhonor := parse v }
  | 9 => { player with time := parse v }
  | num => { player with toTopPlayer := player.toTopPlayer.set parse num v }

/-- What `GetTopList` makes of the table `connect:SORT` answers. -/
def GetTopList (parse : Bytes → Option N) (players : List Bytes) : List (TopPlayer N) :=
  records (TopPlayer.set parse) 6 .empty players .empty 1

def GetTopList1 (parse : Bytes → Option N) (players : List Bytes) : List (TopPlayer1 N) :=
  records (TopPlayer1.set parse) 9 .empty players .empty 1

/-! ## Alignment -/

/-- Element `i` of the table is element `i` of the reply, nil for a null. -/
def PositionFaithful (es : List (Option Bytes)) (bulk : List Bytes) : Prop :=
  ∀ i : ℕ, bulk[i]? = (es[i]?).join

/-- Each player of a list is made of the `k` fields the reply has for one player. -/
def Unmixed {P : Type*} (set : ℕ → Bytes → P → P) (k : ℕ) (empty : P) (es : List (Option Bytes))
    (list : List P) : Prop :=
  ∀ (j : ℕ) p, list[j]? = some p → ∃ fields : List Bytes,
    (es.drop (k * j)).take k = fields.map some ∧ fields.length = k ∧ p = fill set fields 1 empty

/-- No element behind a null one is not null. -/
def NullsLast (es : List (Option Bytes)) : Prop :=
  ∀ i j : ℕ, i < j → es[i]? = some none → (es[j]?).join = none

theorem NullsLast.tail {e : Option Bytes} {es : List (Option Bytes)} (h : NullsLast (e :: es)) :
    NullsLast es := by
  intro i j hij hi
  exact h (i + 1) (j + 1) (by omega) (by simpa using hi)

/-- Behind a null first element everything is null. -/
theorem NullsLast.reduceOption_none {es : List (Option Bytes)} (h : NullsLast (none :: es)) :
    es.reduceOption = [] := by
  rw [List.reduceOption, List.filterMap_eq_nil_iff]
  intro e he
  obtain ⟨j, hj⟩ := List.mem_iff_getElem?.mp he
  have := h 0 (j + 1) (by omega) rfl
  rw [List.getElem?_cons_succ, hj] at this
  exact this

theorem faithful_iff (es : List (Option Bytes)) :
    PositionFaithful es es.reduceOption ↔ NullsLast es := by
  constructor
  · intro h i j hij hi
    -- the table ends before the null element, so it has nothing behind it
    have hnone : es.reduceOption[i]? = none := by rw [h i, hi]; rfl
    rw [← h j, List.getElem?_eq_none_iff]
    have := List.getElem?_eq_none_iff.mp hnone
    omega
  · intro h
    induction es with
    | nil => intro i; rfl
    | cons e es ih =>
      cases e with
      | none =>
        intro i
        rw [List.reduceOption_cons_of_none, h.reduceOption_none]
        cases i with
        | zero => rfl
        | succ i => exact (h 0 (i + 1) (by omega) rfl).symm
      | some s =>
        intro i
        rw [List.reduceOption_cons_of_some]
        cases i with
        | zero => rfl
        | succ i => exact ih h.tail i

/-- With the nulls last the table is the front of the reply. -/
theorem NullsLast.map_reduceOption {es : List (Option Bytes)} (h : NullsLast es) :
    es.reduceOption.map some <+: es := by
  induction es with
  | nil => exact List.nil_prefix
  | cons e es ih =>
    cases e with
    | none =>
      rw [List.reduceOption_cons_of_none, h.reduceOption_none]
      exact List.nil_prefix
    | some s =>
      rw [List.reduceOption_cons_of_some, List.map_cons]
      exact List.cons_prefix_cons.mpr ⟨rfl, ih h.tail⟩

theorem NullsLast.unmixed {es : List (Option Bytes)} (h : NullsLast es) {P : Type*}
    (set : ℕ → Bytes → P → P) {k : ℕ} (hk : 0 < k) (empty : P) :
    Unmixed set k empty es (records set k empty es.reduceOption empty 1) := by
  intro j p hp
  obtain ⟨hlen, hfill⟩ := records_getElem hk hp
  refine ⟨(es.reduceOption.drop (k * j)).take k, ?_, hlen, hfill⟩
  obtain ⟨rest, hrest⟩ := h.map_reduceOption
  -- the `k` fields lie within the part of the reply that the table is
  have hle : k * j + k ≤ es.reduceOption.length := by
    rw [List.length_take, List.length_drop] at hlen
    omega
  conv_lhs => rw [← hrest]
  rw [List.drop_append_of_le_length (by rw [List.length_map]; omega),
    List.take_append_of_le_length (by rw [List.length_drop, List.length_map]; omega),
    List.map_take, List.map_drop]

/-- Table and lists are aligned with the reply. -/
structure Aligned (parse : Bytes → Option N) (es : List (Option Bytes)) (bulk : List Bytes) :
    Prop where
  faithful : PositionFaithful es bulk
  topList : Unmixed (TopPlayer.set parse) 6 .empty es (GetTopList parse bulk)
  topList1 : Unmixed (TopPlayer1.set parse) 9 .empty es (GetTopList1 parse bulk)

theorem aligned_iff (parse : Bytes → Option N) (es : List (Option Bytes)) :
    Aligned parse es es.reduceOption ↔ NullsLast es := by
  constructor
  · intro h
    exact (faithful_iff es).mp h.faithful
  · intro h
    exact {
      faithful := (faithful_iff es).mpr h
      topList := h.unmixed _ (by omega) _
      topList1 := h.unmixed _ (by omega) _ }

end Lists

/-! ## Main result -/

/-- However its bytes are cut, a multi-bulk reply is answered with one table, and the
table and the lists sliced from it are aligned with the reply exactly when its null
elements are the last ones. -/
theorem decoded_aligned_iff {N : Type*} (parse : Bytes → Option N) {es : List (Option Bytes)}
    (hes : (Reply.multi es).WellFormed) {s : Link} (hs : (Link.system [.multi es]).Reachable s)
    (hall : s.received = (Reply.multi es).encode) :
    ∃ q bulk, s.client.out = [Client.plainResponse q (true, .table bulk)] ∧
      (Aligned parse es bulk ↔ NullsLast es) := by
  have hrs : ∀ r ∈ [Reply.multi es], r.WellFormed := by simpa using hes
  have h := Link.inv_reachable hrs hs
  have hcomplete : complete [.multi es] s.received = [.multi es] := by
    rw [hall]
    simp [complete]
  have hle := h.answered
  have hout := h.out
  rw [hcomplete] at hle hout
  obtain ⟨q, asked, hasked⟩ := List.exists_cons_of_length_pos hle
  rw [hasked] at hout
  exact ⟨q, es.reduceOption, hout, aligned_iff parse es⟩

/-- Two elements and no null. -/
theorem decoded_aligned_iff_two : ∃ s q bulk,
    (Link.system [.multi [some [97], some []]]).Reachable s ∧
    s.client.out = [Client.plainResponse q (true, .table bulk)] ∧
    (Aligned tonumber [some [97], some []] bulk ↔ NullsLast [some [97], some []]) := by
  obtain ⟨s, hs, hp⟩ := Link.exists_reachable [.multi [some [97], some []]]
    (l := [.ask 1 2 [[75]], .chunk [42, 50, 13, 10, 36, 49, 13, 10, 97, 13],
      .chunk [10, 36, 48, 13, 10, 13, 10]])
    (p := fun s => decide (s.received = (Reply.multi [some [97], some []]).encode)) (by decide)
  have hwf : (Reply.multi [some [97], some []]).WellFormed := by
    refine ⟨by decide, ?_⟩
    intro s hs
    have hlen : ∀ e ∈ [some [97], some ([] : Bytes)], Reply.FitsBulk (e.getD []) := by decide
    exact hlen _ hs
  obtain ⟨q, bulk, hout, hiff⟩ := decoded_aligned_iff tonumber hwf hs (of_decide_eq_true hp)
  exact ⟨s, q, bulk, hs, hout, hiff⟩

/-- The score of the first of two players is missing: what follows it moves up, and the
second player's uid is taken for the first one's vip. -/
theorem null_score_shifts : ∃ (es : List (Option Bytes)) (bulk : List Bytes),
    (Reply.multi es).WellFormed ∧
    (∃ s, (Link.system [.multi es]).Reachable s ∧ s.received = (Reply.multi es).encode ∧
      s.client.out = [⟨2, 1, true, .value (.table bulk)⟩]) ∧
    ¬ PositionFaithful es bulk ∧
    ¬ Unmixed (TopPlayer.set tonumber) 6 .empty es (GetTopList tonumber bulk) := by
  let es : List (Option Bytes) := [some [49], some [53], none, some [97], some [48], some [48],
    some [50], some [54], some [55], some [98], some [48], some [48]]
  refine ⟨es, es.reduceOption, ⟨by decide, ?_⟩, ?_, ?_, ?_⟩
  · intro s hs
    have hlen : ∀ e ∈ es, Reply.FitsBulk (e.getD []) := by decide
    exact hlen _ hs
  · obtain ⟨s, hs, hp⟩ := Link.exists_reachable [.multi es]
      (l := [.ask 1 2 [[83, 79, 82, 84], [116]], .chunk (Reply.multi es).encode])
      (p := fun s => decide (s.received = (Reply.multi es).encode ∧
        s.client.out = [⟨2, 1, true, .value (.table es.reduceOption)⟩])) (by decide)
    exact ⟨s, hs, of_decide_eq_true hp⟩
  · intro h
    exact absurd (h 2) (by decide)
  · intro h
    obtain ⟨fields, hfields, -, -⟩ := h 0 _ rfl
    have hmem : none ∈ fields.map some := hfields ▸ (by decide)
    simp at hmem

end DnServer.Redis
