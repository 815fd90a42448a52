import DnServer.Lib.CompareSort

/-!
# The leaderboards

`myredis.lua` keeps four lists of the best players. `UpdateTopList` takes the player out of
each, puts the new record at the end, sorts, and drops the last one of more than fifty. What a
list holds is then what the players' last records make of it.
-/

namespace DnServer.Redis

open DnServer.Lib

/-- What an agent reports of its player. -/
structure PlayerInfo where
  uid : ℤ
  money : ℚ
  score : ℚ
  info : String
  qq_vip : ℚ
  vip : ℚ
  dayhonor : ℚ
  weekhonor : ℚ
  time : ℚ
deriving DecidableEq

/-! ## The comparisons -/

def CompareScore (plr1 plr2 : PlayerInfo) : Bool := plr1.score > plr2.score

def CompareMoney (plr1 plr2 : PlayerInfo) : Bool := plr1.money > plr2.money

def CompareDayhonor (plr1 plr2 : PlayerInfo) : Bool :=
  if plr1.dayhonor = plr2.dayhonor then plr1.time < plr2.time else plr1.dayhonor > plr2.dayhonor

def CompareWeekhonor (plr1 plr2 : PlayerInfo) : Bool :=
  if plr1.weekhonor = plr2.weekhonor then plr1.time < plr2.time
  else plr1.weekhonor > plr2.weekhonor

theorem strictWeak_CompareScore : StrictWeak CompareScore := .of_key PlayerInfo.score

theorem strictWeak_CompareMoney : StrictWeak CompareMoney := .of_key PlayerInfo.money

theorem strictWeak_CompareDayhonor : StrictWeak CompareDayhonor :=
  .of_key_then PlayerInfo.dayhonor PlayerInfo.time

theorem strictWeak_CompareWeekhonor : StrictWeak CompareWeekhonor :=
  .of_key_then PlayerInfo.weekhonor PlayerInfo.time

/-! ## The lists -/

structure TopLists where
  score : List PlayerInfo
  money : List PlayerInfo
  dayhonor : List PlayerInfo
  weekhonor : List PlayerInfo
deriving DecidableEq

def TopLists.empty : TopLists := ⟨[], [], [], []⟩

/-- `if top[i] and top[i].uid == uid then table.remove(top, i) end`. -/
def removeAt (uid : ℤ) (top : List PlayerInfo) (i : ℕ) : List PlayerInfo :=
  match top[i - 1]? with
  | some v => if v.uid = uid then top.eraseIdx (i - 1) else top
  | none => top

/-- One round of the first loop of `UpdateTopList`. -/
def removeRound (uid : ℤ) (t : TopLists) (i : ℕ) : TopLists where
  score := removeAt uid t.score i
  money := removeAt uid t.money i
  dayhonor := removeAt uid t.dayhonor i
  weekhonor := removeAt uid t.weekhonor i

/-- `if #top > 50 then table.remove(top, #top) end`. -/
def cutTop (top : List PlayerInfo) : List PlayerInfo :=
  if top.length > 50 then top.dropLast else top

def UpdateTopList (s : CompareSort PlayerInfo) (t : TopLists) (player_info : PlayerInfo) :
    TopLists :=
  let t := (List.range' 1 50).foldl (removeRound player_info.uid) t
  { score := cutTop (s.sort CompareScore (t.score ++ [player_info]))
    money := cutTop (s.sort CompareMoney (t.money ++ [player_info]))
    dayhonor := cutTop (s.sort CompareDayhonor (t.dayhonor ++ [player_info]))
    weekhonor := cutTop (s.sort CompareWeekhonor (t.weekhonor ++ [player_info])) }

/-! ## What a list is to hold -/

/-- The last record reported for a player. -/
def lastInfo (infos : List PlayerInfo) (uid : ℤ) : Option PlayerInfo :=
  (infos.filter fun v => v.uid = uid).getLast?

/-- The list after these reports, ranked by `lt`. -/
structure Ranked (lt : PlayerInfo → PlayerInfo → Bool) (infos : List PlayerInfo)
    (top : List PlayerInfo) : Prop where
  length : top.length ≤ 50
  nodup : (top.map PlayerInfo.uid).Nodup
  sorted : top.Pairwise fun a b => lt b a = false
  latest : ∀ v ∈ top, lastInfo infos v.uid = some v
  /-- The player of the last report is missing only if fifty are not below it. -/
  missing : ∀ player_info, infos.getLast? = some player_info →
    player_info.uid ∉ top.map PlayerInfo.uid →
    top.length = 50 ∧ ∀ v ∈ top, lt player_info v = false

/-! ## The removal -/

/-- Rounds that meet another player, or none, change nothing. -/
theorem foldl_removeAt_of_ne {uid : ℤ} {top : List PlayerInfo} {rounds : List ℕ}
    (h : ∀ i ∈ rounds, ∀ v, top[i - 1]? = some v → v.uid ≠ uid) :
    rounds.foldl (removeAt uid) top = top := by
  induction rounds with
  | nil => rfl
  | cons i rounds ih =>
    have hround : removeAt uid top i = top := by
      unfold removeAt
      cases hv : top[i - 1]? with
      | none => rfl
      | some v => exact if_neg (h i List.mem_cons_self v hv)
    rw [List.foldl_cons, hround, ih fun j hj => h j (List.mem_cons_of_mem _ hj)]

/-- The rounds take out the one record of the player. -/
theorem foldl_removeAt {uid : ℤ} {top : List PlayerInfo} (hlen : top.length ≤ 50)
    (hnodup : (top.map PlayerInfo.uid).Nodup) :
    (List.range' 1 50).foldl (removeAt uid) top = top.filter fun v => v.uid ≠ uid := by
  by_cases hmem : uid ∈ top.map PlayerInfo.uid
  · obtain ⟨v, hv, huid⟩ := List.mem_map.mp hmem
    obtain ⟨pre, post, rfl⟩ := List.append_of_mem hv
    rw [List.map_append, List.map_cons, List.nodup_append] at hnodup
    obtain ⟨-, hpost, hdisj⟩ := hnodup
    have hpre : ∀ w ∈ pre, w.uid ≠ uid := by
      intro w hw heq
      exact hdisj w.uid (List.mem_map_of_mem hw) v.uid List.mem_cons_self (heq.trans huid.symm)
    have hpost : ∀ w ∈ post, w.uid ≠ uid := by
      intro w hw heq
      exact (List.nodup_cons.mp hpost).1 (huid ▸ heq ▸ List.mem_map_of_mem hw)
    rw [List.length_append, List.length_cons] at hlen
    -- the rounds before the record, the one at it, and those behind it
    have hsplit : List.range' 1 (pre.length + (49 - pre.length + 1)) = List.range' 1 pre.length ++
        (pre.length + 1) :: List.range' (pre.length + 2) (49 - pre.length) := by
      rw [← List.range'_append, List.range'_succ, Nat.one_mul, Nat.add_comm 1 pre.length]
    rw [show pre.length + (49 - pre.length + 1) = 50 by omega] at hsplit
    have hbefore : (List.range' 1 pre.length).foldl (removeAt uid) (pre ++ v :: post) =
        pre ++ v :: post := by
      refine foldl_removeAt_of_ne fun i hi w hw => ?_
      have hi := List.mem_range'_1.mp hi
      rw [List.getElem?_append_left (by omega)] at hw
      exact hpre w (List.mem_of_getElem? hw)
    have hat : removeAt uid (pre ++ v :: post) (pre.length + 1) = pre ++ post := by
      unfold removeAt
      rw [Nat.add_sub_cancel, List.getElem?_append_right le_rfl, Nat.sub_self]
      show (if v.uid = uid then _ else _) = _
      rw [if_pos huid, List.eraseIdx_append_of_length_le le_rfl, Nat.sub_self,
        List.eraseIdx_cons_zero]
    have hkeep : ∀ w ∈ pre ++ post, w.uid ≠ uid := by
      intro w hw
      rcases List.mem_append.mp hw with hw | hw
      · exact hpre w hw
      · exact hpost w hw
    rw [hsplit, List.foldl_append, List.foldl_cons, hbefore, hat,
      foldl_removeAt_of_ne fun i _ w hw => hkeep w (List.mem_of_getElem? hw), List.filter_append,
      List.filter_cons_of_neg (by simp [huid]), ← List.filter_append]
    exact (List.filter_eq_self.mpr fun w hw => decide_eq_true (hkeep w hw)).symm
  · have hne : ∀ v ∈ top, v.uid ≠ uid := fun v hv heq => hmem (heq ▸ List.mem_map_of_mem hv)
    rw [foldl_removeAt_of_ne fun i _ v hv => hne v (List.mem_of_getElem? hv)]
    exact (List.filter_eq_self.mpr fun v hv => decide_eq_true (hne v hv)).symm

/-! ## One report -/

theorem lastInfo_append (infos : List PlayerInfo) (player_info : PlayerInfo) (uid : ℤ) :
    lastInfo (infos ++ [player_info]) uid =
      if player_info.uid = uid then some player_info else lastInfo infos uid := by
  unfold lastInfo
  rw [List.filter_append]
  by_cases h : player_info.uid = uid
  · rw [if_pos h, List.filter_cons_of_pos (by simpa using h), List.filter_nil, List.getLast?_concat]
  · rw [if_neg h, List.filter_cons_of_neg (by simpa using h), List.filter_nil, List.append_nil]

/-- What a report makes of one list. -/
def updateTop (s : CompareSort PlayerInfo) (lt : PlayerInfo → PlayerInfo → Bool)
    (top : List PlayerInfo) (player_info : PlayerInfo) : List PlayerInfo :=
  cutTop (s.sort lt ((List.range' 1 50).foldl (removeAt player_info.uid) top ++ [player_info]))

theorem cutTop_sublist (top : List PlayerInfo) : (cutTop top).Sublist top := by
  unfold cutTop
  split
  · exact List.dropLast_sublist top
  · exact List.Sublist.refl top

/-- Who is cut off was the last. -/
theorem cutTop_cases (top : List PlayerInfo) :
    cutTop top = top ∧ top.length ≤ 50 ∨
      ∃ v, top = cutTop top ++ [v] ∧ (cutTop top).length + 1 = top.length ∧ 50 < top.length := by
  unfold cutTop
  by_cases h : top.length > 50
  · have hne : top ≠ [] := List.ne_nil_of_length_pos (by omega)
    rw [if_pos h]
    refine .inr ⟨top.getLast hne, (List.dropLast_append_getLast hne).symm, ?_, h⟩
    rw [List.length_dropLast]
    omega
  · rw [if_neg h]
    exact .inl ⟨rfl, not_lt.mp h⟩

theorem Ranked.update (s : CompareSort PlayerInfo) {lt : PlayerInfo → PlayerInfo → Bool}
    (hlt : StrictWeak lt) {infos top : List PlayerInfo} (h : Ranked lt infos top)
    (player_info : PlayerInfo) :
    Ranked lt (infos ++ [player_info]) (updateTop s lt top player_info) := by
  unfold updateTop
  rw [foldl_removeAt h.length h.nodup]
  -- the others keep their records
  set others := top.filter fun v => v.uid ≠ player_info.uid with hothers
  have hne : ∀ v ∈ others, v ∈ top ∧ v.uid ≠ player_info.uid := by
    intro v hv
    rw [hothers, List.mem_filter] at hv
    exact ⟨hv.1, of_decide_eq_true hv.2⟩
  have hlen : others.length ≤ 50 := (List.length_filter_le _ _).trans h.length
  set ranking := s.sort lt (others ++ [player_info])
  have hperm : ranking.Perm (others ++ [player_info]) := s.perm lt _ hlt
  have hsorted : ranking.Pairwise fun a b => lt b a = false := s.sorted lt _ hlt
  have hcount : ranking.length = others.length + 1 := by
    rw [hperm.length_eq, List.length_append, List.length_singleton]
  have hnodup : (ranking.map PlayerInfo.uid).Nodup := by
    rw [(hperm.map PlayerInfo.uid).nodup_iff, List.map_append, List.nodup_append]
    refine ⟨(List.filter_sublist.map _).nodup h.nodup, List.nodup_singleton _, ?_⟩
    intro a ha b hb hab
    obtain ⟨v, hv, rfl⟩ := List.mem_map.mp ha
    exact (hne v hv).2 (hab.trans (List.mem_singleton.mp hb))
  have hlatest : ∀ v ∈ ranking, lastInfo (infos ++ [player_info]) v.uid = some v := by
    intro v hv
    rw [lastInfo_append]
    rcases List.mem_append.mp (hperm.mem_iff.mp hv) with hv | hv
    · rw [if_neg (hne v hv).2.symm]
      exact h.latest v (hne v hv).1
    · rw [List.mem_singleton.mp hv, if_pos rfl]
  have hsub := cutTop_sublist ranking
  refine ⟨?_, (hsub.map _).nodup hnodup, hsorted.sublist hsub,
    fun v hv => hlatest v (hsub.subset hv), fun last hlast hmissing => ?_⟩
  · rcases cutTop_cases ranking with ⟨heq, hle⟩ | ⟨v, -, hv, -⟩
    · rw [heq]
      exact hle
    · omega
  · rw [List.getLast?_concat] at hlast
    obtain rfl := Option.some.inj hlast
    have hmem : player_info ∈ ranking :=
      hperm.mem_iff.mpr (List.mem_append_right _ (List.mem_singleton_self _))
    rcases cutTop_cases ranking with ⟨heq, -⟩ | ⟨v, heq, hv, hlong⟩
    · rw [heq] at hmissing
      exact absurd (List.mem_map_of_mem hmem) hmissing
    · -- the one that is cut off is the player itself
      rw [heq] at hmem
      have hself : player_info = v := by
        rcases List.mem_append.mp hmem with hmem | hmem
        · exact absurd (List.mem_map_of_mem hmem) hmissing
        · exact List.mem_singleton.mp hmem
      refine ⟨by omega, fun w hw => ?_⟩
      rw [heq, List.pairwise_append] at hsorted
      exact hsorted.2.2 w hw player_info (hself ▸ List.mem_singleton_self v)

/-! ## All reports -/

/-- The four lists do not meet in the first loop. -/
theorem foldl_removeRound (uid : ℤ) (rounds : List ℕ) (t : TopLists) :
    rounds.foldl (removeRound uid) t =
      ⟨rounds.foldl (removeAt uid) t.score, rounds.foldl (removeAt uid) t.money,
        rounds.foldl (removeAt uid) t.dayhonor, rounds.foldl (removeAt uid) t.weekhonor⟩ := by
  induction rounds generalizing t with
  | nil => rfl
  | cons i rounds ih =>
    rw [List.foldl_cons, ih]
    rfl

theorem UpdateTopList_eq (s : CompareSort PlayerInfo) (t : TopLists) (player_info : PlayerInfo) :
    UpdateTopList s t player_info =
      ⟨updateTop s CompareScore t.score player_info, updateTop s CompareMoney t.money player_info,
        updateTop s CompareDayhonor t.dayhonor player_info,
        updateTop s CompareWeekhonor t.weekhonor player_info⟩ := by
  simp only [UpdateTopList, updateTop, foldl_removeRound]

/-- All four lists are what the reports make of them. -/
structure TopLists.AllRanked (infos : List PlayerInfo) (t : TopLists) : Prop where
  score : Ranked CompareScore infos t.score
  money : Ranked CompareMoney infos t.money
  dayhonor : Ranked CompareDayhonor infos t.dayhonor
  weekhonor : Ranked CompareWeekhonor infos t.weekhonor

theorem ranked_empty (lt : PlayerInfo → PlayerInfo → Bool) : Ranked lt [] [] where
  length := Nat.zero_le 50
  nodup := List.nodup_nil
  sorted := List.Pairwise.nil
  latest _ hv := absurd hv List.not_mem_nil
  missing _ hlast := nomatch hlast

/-- After any reports, from empty lists on, every list has at most fifty players, none twice, in
the order of its comparison and with their last records; the player of the last report is missing
only from a full list in which nobody is below it. -/
theorem topLists_ranked (s : CompareSort PlayerInfo) (infos : List PlayerInfo) :
    (infos.foldl (UpdateTopList s) .empty).AllRanked infos := by
  induction infos using List.reverseRecOn with
  | nil => exact ⟨ranked_empty _, ranked_empty _, ranked_empty _, ranked_empty _⟩
  | append_singleton infos player_info ih =>
    rw [List.foldl_append, List.foldl_cons, List.foldl_nil, UpdateTopList_eq]
    exact ⟨ih.score.update s strictWeak_CompareScore player_info,
      ih.money.update s strictWeak_CompareMoney player_info,
      ih.dayhonor.update s strictWeak_CompareDayhonor player_info,
      ih.weekhonor.update s strictWeak_CompareWeekhonor player_info⟩

end DnServer.Redis
