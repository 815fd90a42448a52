import DnServer.Redis.TopList

/-!
# The winners of the wishing well

`InitWishingWinList` of `myredis.lua` counts through a flat reply as `GetTopList` does, five
fields a player. What the two insert into their list is the table `player` itself.
`GetTopList` goes on with a new one; `InitWishingWinList` goes on writing into the table it
has inserted, so that in the end every element of the list is the last player.
-/

namespace DnServer.Redis

open DnServer.Lib

/-! ## Counting with tables by reference -/

/-- The loop's variables, and the tables it has created. -/
structure Slice (P : Type*) where
  tables : ℕ → P
  next : ℕ
  player : ℕ
  num : ℕ
  /-- The tables that have been inserted. -/
  list : List ℕ

namespace Slice

variable {P : Type*} (set : ℕ → Bytes → P → P) (k : ℕ) (empty : P)

/-- Before the loop: `player = {}`, `num = 1`. -/
def start : Slice P := ⟨fun _ => empty, 1, 0, 1, []⟩

/-- The `num`-th field is set in the table `player`. -/
def setField (s : Slice P) (v : Bytes) : Slice P :=
  { s with tables := Function.update s.tables s.player (set s.num v (s.tables s.player)) }

/-- `table.insert(list, player)` and `num = 1`. -/
def insert (s : Slice P) : Slice P := { s with list := s.list ++ [s.player], num := 1 }

/-- One round of the loop, which goes on with the same table after an insertion. -/
def step (s : Slice P) (v : Bytes) : Slice P :=
  let t := s.setField set v
  if s.num = k then t.insert else { t with num := s.num + 1 }

/-- What the list holds. -/
def result (s : Slice P) : List P := s.list.map s.tables

/-- The table `player` with `fields` set in it. -/
def setFields (s : Slice P) (fields : List Bytes) : Slice P :=
  { s with
    tables := Function.update s.tables s.player (fill set fields s.num (s.tables s.player)) }

variable {set k empty}

/-- The fields the player misses are set one by one, then it is inserted. -/
theorem foldl_step_full {fields : List Bytes} (rest : List Bytes)
    {s : Slice P} (hne : fields ≠ []) (hlen : s.num + fields.length = k + 1) :
    (fields ++ rest).foldl (step set k) s =
      rest.foldl (step set k) (s.setFields set fields).insert := by
  induction fields generalizing s with
  | nil => exact absurd rfl hne
  | cons v fields ih =>
    rw [List.length_cons] at hlen
    rw [List.cons_append, List.foldl_cons]
    rcases fields with _ | ⟨w, fields⟩
    · have hnum : s.num = k := by simpa using hlen
      rw [List.nil_append]
      unfold step
      rw [if_pos hnum]
      rfl
    · rw [List.length_cons] at hlen
      have hnum : s.num ≠ k := by omega
      have hstep : step set k s v = { s.setField set v with num := s.num + 1 } := if_neg hnum
      rw [hstep, ih (List.cons_ne_nil _ _) (by simp only [List.length_cons]; omega)]
      simp only [setFields, setField, insert, Function.update_self, Function.update_idem]
      rfl

/-- With one table for all players the list holds that table once for each, and the table
holds the last player. `fill` is to leave nothing of the player before. -/
theorem foldl_step_same (hk : 0 < k)
    (hover : ∀ (fields : List Bytes) (p q : P), fields.length = k →
      fill set fields 1 p = fill set fields 1 q)
    {n : ℕ} {players : List Bytes} (hlen : players.length = k * n) {s : Slice P}
    (hnum : s.num = 1) :
    (players.foldl (step set k) s).player = s.player ∧
    (players.foldl (step set k) s).list = s.list ++ List.replicate n s.player ∧
    (players.foldl (step set k) s).tables s.player =
      if n = 0 then s.tables s.player
      else fill set ((players.drop (k * (n - 1))).take k) 1 empty := by
  induction n generalizing players s with
  | zero =>
    rw [Nat.mul_zero] at hlen
    rw [List.length_eq_zero_iff.mp hlen]
    simp
  | succ n ih =>
    rw [Nat.mul_succ] at hlen
    have hfields : (players.take k).length = k := by rw [List.length_take]; omega
    have hne : players.take k ≠ [] := List.ne_nil_of_length_pos (by rw [hfields]; exact hk)
    have hfold : (players.take k ++ players.drop k).foldl (step set k) s =
        (players.drop k).foldl (step set k) (s.setFields set (players.take k)).insert :=
      foldl_step_full _ hne (by rw [hnum, hfields, Nat.add_comm])
    rw [List.take_append_drop] at hfold
    have hrest : (players.drop k).length = k * n := by rw [List.length_drop]; omega
    obtain ⟨hplayer, hlist, htable⟩ :=
      @ih (players.drop k) hrest (s.setFields set (players.take k)).insert rfl
    rw [hfold]
    refine ⟨hplayer, ?_, ?_⟩
    · rw [hlist, List.replicate_succ]
      simp [insert, setFields]
    · refine htable.trans ?_
      rw [if_neg (Nat.succ_ne_zero n), Nat.add_sub_cancel]
      by_cases hn : n = 0
      · rw [if_pos hn, hn, Nat.mul_zero, List.drop_zero]
        simp only [insert, setFields, Function.update_self, hnum]
        exact hover _ _ _ hfields
      · rw [if_neg hn, List.drop_drop]
        obtain ⟨m, rfl⟩ := Nat.exists_eq_succ_of_ne_zero hn
        rw [Nat.succ_sub_one, Nat.mul_succ, Nat.add_comm]

end Slice

/-! ## The list of winners -/

section Winners

variable {N : Type*}

/-- A winner. -/
structure WinPlayer (N : Type*) where
  uid : Option N
  money : Option N
  time : Option N
  name : Option Bytes
  sptype : Option N
  deriving DecidableEq, Repr

def WinPlayer.empty : WinPlayer N := ⟨none, none, none, none, none⟩

def WinPlayer.set (parse : Bytes → Option N) (num : ℕ) (v : Bytes) (player : WinPlayer N) :
    WinPlayer N :=
  match num with
  | 1 => { player with uid := parse v }
  | 2 => { player with money := parse v }
  | 3 => { player with time := parse v }
  | 4 => { player with name := some v }
  | 5 => { player with sptype := parse v }
  | _ => player

/-- What `InitWishingWinList` makes of the table `connect:SORT` answers. -/
def InitWishingWinList (parse : Bytes → Option N) (players : List Bytes) : List (WinPlayer N) :=
  (players.foldl (Slice.step (WinPlayer.set parse) 5) (Slice.start .empty)).result

/-- What `Explain` makes of the format after the key. -/
def wishingSort : List String :=
  ["desc", "by", "*->wtime", "get", "*->uid", "get", "*->money", "get", "*->wtime", "get",
    "*->name", "get", "*->sptype"]

/-- The fields a `SORT` asks for, in their order. -/
def getClauses : List String → List String
  | word :: clause :: rest =>
    if word = "get" then clause :: getClauses rest else getClauses (clause :: rest)
  | _ => []

/-- The winner has what the reply gives for a clause. -/
def WinPlayer.Holds (parse : Bytes → Option N) (p : WinPlayer N) (clause : String) (v : Bytes) :
    Prop :=
  if clause = "*->uid" then p.uid = parse v
  else if clause = "*->money" then p.money = parse v
  else if clause = "*->wtime" then p.time = parse v
  else if clause = "*->name" then p.name = some v
  else if clause = "*->sptype" then p.sptype = parse v
  else False

/-- The list has `n` winners, each with what the reply gives in its own group of five. -/
structure Decoded (parse : Bytes → Option N) (n : ℕ) (players : List Bytes)
    (list : List (WinPlayer N)) : Prop where
  length : list.length = n
  holds : ∀ (i j : ℕ) p clause v, list[i]? = some p → (getClauses wishingSort)[j]? = some clause →
    players[5 * i + j]? = some v → p.Holds parse clause v

/-- Two values of a field that are read alike. -/
def ReadAlike (parse : Bytes → Option N) (clause : String) (v w : Bytes) : Prop :=
  if clause = "*->name" then v = w else parse v = parse w

/-- All groups of five say the same. -/
def AllAlike (parse : Bytes → Option N) (n : ℕ) (players : List Bytes) : Prop :=
  ∀ i < n, ∀ i' < n, ∀ (j : ℕ) clause v w, (getClauses wishingSort)[j]? = some clause →
    players[5 * i + j]? = some v → players[5 * i' + j]? = some w → ReadAlike parse clause v w

/-- The winner of the `i`-th group. -/
def winner (parse : Bytes → Option N) (players : List Bytes) (i : ℕ) : WinPlayer N :=
  fill (WinPlayer.set parse) ((players.drop (5 * i)).take 5) 1 .empty

theorem getClauses_wishingSort :
    getClauses wishingSort = ["*->uid", "*->money", "*->wtime", "*->name", "*->sptype"] := rfl

theorem exists_five {α : Type*} {l : List α} (h : l.length = 5) :
    ∃ a b c d e, l = [a, b, c, d, e] := by
  match l, h with
  | [a, b, c, d, e], _ => exact ⟨a, b, c, d, e, rfl⟩

/-- Five fields leave nothing of the player before. -/
theorem fill_overwrites (parse : Bytes → Option N) (fields : List Bytes) (p q : WinPlayer N)
    (h : fields.length = 5) :
    fill (WinPlayer.set parse) fields 1 p = fill (WinPlayer.set parse) fields 1 q := by
  obtain ⟨a, b, c, d, e, rfl⟩ := exists_five h
  rfl

theorem winner_holds (parse : Bytes → Option N) {players : List Bytes} {i j : ℕ} {clause : String}
    {v : Bytes} (hi : 5 * i + 5 ≤ players.length) (hj : (getClauses wishingSort)[j]? = some clause)
    (hv : players[5 * i + j]? = some v) : (winner parse players i).Holds parse clause v := by
  have hlen : ((players.drop (5 * i)).take 5).length = 5 := by
    rw [List.length_take, List.length_drop]
    omega
  have hj5 : j < 5 := (List.getElem?_eq_some_iff.mp hj).1
  have hgroup : ((players.drop (5 * i)).take 5)[j]? = some v := by
    rw [List.getElem?_take_of_lt hj5, List.getElem?_drop, hv]
  unfold winner
  obtain ⟨a, b, c, d, e, habc⟩ := exists_five hlen
  rw [habc] at hgroup ⊢
  rw [getClauses_wishingSort] at hj
  interval_cases j <;> cases hj <;> cases hgroup <;> rfl

/-- What one player has for a clause is read in one way. -/
theorem WinPlayer.Holds.iff_readAlike {parse : Bytes → Option N} {p : WinPlayer N}
    {clause : String} {v : Bytes} (h : p.Holds parse clause v) (w : Bytes) :
    p.Holds parse clause w ↔ ReadAlike parse clause v w := by
  unfold Holds ReadAlike at *
  split_ifs at h ⊢ <;> simp_all

/-- All elements of the list are the last winner. -/
theorem initWishingWinList_eq (parse : Bytes → Option N) {n : ℕ} {players : List Bytes}
    (h : players.length = 5 * n) :
    InitWishingWinList parse players = List.replicate n (winner parse players (n - 1)) := by
  obtain ⟨-, hlist, htable⟩ := @Slice.foldl_step_same (WinPlayer N) (WinPlayer.set parse) 5 .empty
    (by omega) (fill_overwrites parse) n players h (Slice.start .empty) rfl
  unfold InitWishingWinList Slice.result
  rw [hlist]
  simp only [Slice.start, List.nil_append, List.map_replicate]
  cases n with
  | zero => rfl
  | succ n => exact congrArg _ (htable.trans (if_neg (Nat.succ_ne_zero n)))

/-- The groups of five are decoded each into its own record exactly if they all say the same. -/
theorem wishingWinList_decoded_iff (parse : Bytes → Option N) {n : ℕ} {players : List Bytes}
    (h : players.length = 5 * n) :
    Decoded parse n players (InitWishingWinList parse players) ↔ AllAlike parse n players := by
  rw [initWishingWinList_eq parse h]
  constructor
  · intro hdec i hi i' hi' j clause v w hclause hv hw
    have hlast : ∀ m < n, (List.replicate n (winner parse players (n - 1)))[m]? =
        some (winner parse players (n - 1)) := fun m hm => by
      rw [List.getElem?_replicate, if_pos hm]
    have hv' := hdec.holds i j _ clause v (hlast i hi) hclause hv
    exact (hv'.iff_readAlike w).mp (hdec.holds i' j _ clause w (hlast i' hi') hclause hw)
  · intro halike
    refine ⟨List.length_replicate, fun i j p clause v hp hclause hv => ?_⟩
    have hi : i < n := by
      have := (List.getElem?_eq_some_iff.mp hp).1
      rwa [List.length_replicate] at this
    rw [List.getElem?_replicate, if_pos hi] at hp
    obtain rfl := Option.some.inj hp
    have hj : j < 5 := (List.getElem?_eq_some_iff.mp hclause).1
    -- the last group has a value for the clause as well
    obtain ⟨w, hw⟩ : ∃ w, players[5 * (n - 1) + j]? = some w :=
      ⟨_, List.getElem?_eq_getElem (by omega)⟩
    have hlast := winner_holds parse (i := n - 1) (by omega) hclause hw
    exact (hlast.iff_readAlike v).mpr (halike (n - 1) (by omega) i hi j clause w v hclause hw hv)

/-- One winner twice. -/
theorem wishingWinList_decoded_iff_two :
    Decoded tonumber 2 [[49], [53], [57], [97], [49], [49], [53], [57], [97], [49]]
      (InitWishingWinList tonumber [[49], [53], [57], [97], [49], [49], [53], [57], [97], [49]]) ↔
    AllAlike tonumber 2 [[49], [53], [57], [97], [49], [49], [53], [57], [97], [49]] :=
  wishingWinList_decoded_iff tonumber rfl

/-- Two winners, of uid 1 and of uid 2: the list has the second one twice. -/
theorem second_winner_twice : ∃ players : List Bytes, players.length = 5 * 2 ∧
    ¬Decoded tonumber 2 players (InitWishingWinList tonumber players) ∧
    (InitWishingWinList tonumber players).map WinPlayer.uid = [some 2, some 2] := by
  let players : List Bytes := [[49], [53], [57], [97], [49], [50], [54], [56], [98], [49]]
  have hlist : InitWishingWinList tonumber players = List.replicate 2 (winner tonumber players 1) :=
    initWishingWinList_eq tonumber rfl
  have huid : (winner tonumber players 1).uid = some 2 := by decide
  refine ⟨players, rfl, fun hdec => ?_, ?_⟩
  · rw [hlist] at hdec
    have hfirst := hdec.holds 0 0 _ "*->uid" [49] rfl rfl rfl
    unfold WinPlayer.Holds at hfirst
    rw [if_pos rfl, huid] at hfirst
    exact absurd hfirst (by decide)
  · rw [hlist, List.map_replicate, huid]
    rfl

end Winners

end DnServer.Redis
