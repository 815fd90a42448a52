import DnServer.Lib.Loop
import DnServer.Lib.Table
import DnServer.Bullfight.Room.State

/-!
# The list of players online

`CMSG_GET_ONLINE` of `playercenter.lua` picks up to a hundred players to show: first girls in
a room, then girls online, up to thirty-five, then anyone. Each pass takes whom it has picked,
or is not to be picked any more, out of the tables of candidates.

* `loop_pickGirlInRoom`, `loop_pickGirl`, `loop_pickAny`: each loop keeps what was
  picked distinct and out of the tables of candidates (`Picked`), and ends when its
  number is full.
* `getOnline_onlineList`: the loops one behind the other, in whatever order each visits
  its table.
-/

namespace DnServer.Bullfight

open DnServer.Lib

namespace PlayerCenter

/-- `serverconf.robot`. -/
def isRobot (uid : Uid) : Bool := 1 ≤ uid ∧ uid ≤ 90

/-- An entry of `all_player`, with the field that is read here. -/
structure OnlinePlayer where
  roomid : Option RoomId
deriving DecidableEq

/-- The order in which `pairs` visits a table: any. -/
structure Visits where
  order : {κ α : Type} → Table κ α → List (κ × α)
  perm : ∀ {κ α : Type} (t : Table κ α), (order t).Perm t.pairs

instance : Inhabited Visits := ⟨⟨Table.pairs, fun _ => List.Perm.refl _⟩⟩

/-- The variables of the handler. -/
structure Picking where
  onlines : List Uid
  num : ℕ
  all_onlines : Table Uid OnlinePlayer
  girls : Table ℕ Uid

namespace Picking

/-- `all_onlines[k] = nil`. -/
def drop (p : Picking) (k : Uid) : Picking := { p with all_onlines := p.all_onlines.erase k }

/-- The player is picked and is no candidate any more. -/
def pick (p : Picking) (k : Uid) : Picking :=
  { p.drop k with onlines := p.onlines ++ [k], num := p.num + 1 }

/-- `girls[k] = nil`. -/
def forget (p : Picking) (k : ℕ) : Picking := { p with girls := p.girls.erase k }

/-- The girls that are left are no candidates any more. -/
def dropGirls (p : Picking) : Picking := p.girls.pairs.foldl (fun p e => p.drop e.2) p

end Picking

/-! ## The passes -/

/-- Without girls: players in a room. -/
def pickInRoom (uid : Uid) (p : Picking) (e : Uid × OnlinePlayer) : Picking × Bool :=
  let p :=
    if uid = e.1 then p.drop e.1
    else if e.2.roomid.isSome then p.pick e.1
    else p
  (p, p.num = 100)

/-- Girls in a room. -/
def pickGirlInRoom (uid : Uid) (p : Picking) (e : ℕ × Uid) : Picking × Bool :=
  if e.2 = uid then ((p.forget e.1).drop e.2, false)
  else
    match p.all_onlines.get? e.2 with
    | none => (p, false)
    | some v =>
      let p := if v.roomid.isSome then (p.pick e.2).forget e.1 else p
      if p.num = 35 then (p.dropGirls, true) else (p, false)

/-- Girls online. -/
def pickGirl (p : Picking) (e : ℕ × Uid) : Picking × Bool :=
  let p := if e.2 ∈ p.all_onlines then (p.pick e.2).forget e.1 else p
  if p.num = 35 then (p.dropGirls, true) else (p, false)

/-- Anyone; who is picked here stays in the table. -/
def pickAny (uid : Uid) (p : Picking) (e : Uid × OnlinePlayer) : Picking × Bool :=
  let p :=
    if e.1 = uid then p.drop e.1 else { p with onlines := p.onlines ++ [e.1], num := p.num + 1 }
  (p, p.num = 100)

/-- The two passes over the girls. -/
def pickGirls (visit : Visits) (uid : Uid) (p : Picking) : Picking :=
  let p := loop (pickGirlInRoom uid) (visit.order p.girls) p
  if p.num < 35 then loop pickGirl (visit.order p.girls) p else p

/-- The passes before the last one. -/
def pickFirst (visit : Visits) (uid : Uid) (p : Picking) : Picking :=
  if p.girls.size = 0 then loop (pickInRoom uid) (visit.order p.all_onlines) p
  else pickGirls visit uid p

/-- The last pass. -/
def pickRest (visit : Visits) (uid : Uid) (p : Picking) : Picking :=
  if p.num < 100 then loop (pickAny uid) (visit.order p.all_onlines) p else p

/-- The copy of `all_player` without the robots. -/
def nonRobots (all_player : Table Uid OnlinePlayer) : Table Uid OnlinePlayer :=
  ⟨all_player.pairs.filter fun e => !isRobot e.1,
    (List.filter_sublist.map Prod.fst).nodup all_player.nodup⟩

/-- `onlines` of `CMSG_GET_ONLINE`. -/
def getOnline (visit : Visits) (all_player : Table Uid OnlinePlayer) (uid : Uid)
    (girls : Table ℕ Uid) : List Uid :=
  (pickRest visit uid (pickFirst visit uid ⟨[], 0, nonRobots all_player, girls⟩)).onlines

/-! ## What the passes keep -/

/-- Who is picked was a candidate in `all`, once, and is none any more. -/
structure Picked (all : Table Uid OnlinePlayer) (uid : Uid) (p : Picking) : Prop where
  num : p.num = p.onlines.length
  nodup : p.onlines.Nodup
  online : ∀ x ∈ p.onlines, x ∈ all ∧ x ≠ uid
  gone : ∀ x ∈ p.onlines, x ∉ p.all_onlines
  sub : ∀ x, x ∈ p.all_onlines → x ∈ all

/-- Every girl still stands in `girls` or is no candidate. -/
structure Covered (girls : Table ℕ Uid) (p : Picking) : Prop where
  kept : ∀ k id, p.girls.get? k = some id → girls.get? k = some id
  cover : ∀ k id, girls.get? k = some id → p.girls.get? k = some id ∨ id ∉ p.all_onlines

/-- No girl is a candidate. -/
def NoGirlLeft (girls : Table ℕ Uid) (p : Picking) : Prop :=
  ∀ k id, girls.get? k = some id → id ∉ p.all_onlines

section Keep

variable {all : Table Uid OnlinePlayer} {uid : Uid} {girls : Table ℕ Uid} {p : Picking}

theorem Picked.drop (h : Picked all uid p) (k : Uid) : Picked all uid (p.drop k) where
  num := h.num
  nodup := h.nodup
  online := h.online
  gone x hx hmem := h.gone x hx (Table.mem_erase.mp hmem).2
  sub x hx := h.sub x (Table.mem_erase.mp hx).2

theorem Picked.pick (h : Picked all uid p) {k : Uid} (hk : k ∈ p.all_onlines) (hne : k ≠ uid) :
    Picked all uid (p.pick k) where
  num := by
    show p.num + 1 = (p.onlines ++ [k]).length
    rw [h.num, List.length_append, List.length_singleton]
  nodup := List.nodup_append.mpr ⟨h.nodup, List.nodup_singleton k, fun a ha b hb hab =>
    h.gone a ha (hab.trans (List.mem_singleton.mp hb) ▸ hk)⟩
  online x hx := by
    rcases List.mem_append.mp hx with hx | hx
    · exact h.online x hx
    · rw [List.mem_singleton.mp hx]
      exact ⟨h.sub k hk, hne⟩
  gone x hx hmem := by
    obtain ⟨hxk, hmem⟩ := Table.mem_erase.mp hmem
    rcases List.mem_append.mp hx with hx | hx
    · exact h.gone x hx hmem
    · exact hxk (List.mem_singleton.mp hx)
  sub x hx := h.sub x (Table.mem_erase.mp hx).2

theorem Picked.forget (h : Picked all uid p) (k : ℕ) : Picked all uid (p.forget k) :=
  ⟨h.num, h.nodup, h.online, h.gone, h.sub⟩

theorem Covered.drop (h : Covered girls p) (k : Uid) : Covered girls (p.drop k) :=
  ⟨h.kept, fun i id hi => (h.cover i id hi).imp_right fun hnot hmem =>
    hnot (Table.mem_erase.mp hmem).2⟩

theorem Covered.pick (h : Covered girls p) (k : Uid) : Covered girls (p.pick k) :=
  ⟨(h.drop k).kept, (h.drop k).cover⟩

/-- A girl may be forgotten once she is no candidate. -/
theorem Covered.forget (h : Covered girls p) {k : ℕ} {id : Uid} (hk : girls.get? k = some id)
    (hid : id ∉ p.all_onlines) : Covered girls (p.forget k) where
  kept i id' hi := by
    have hi : (p.girls.erase k).get? i = some id' := hi
    rw [Table.get?_erase] at hi
    by_cases hik : i = k
    · rw [if_pos hik] at hi
      cases hi
    · rw [if_neg hik] at hi
      exact h.kept i id' hi
  cover i id' hi := by
    by_cases hik : i = k
    · rw [hik, hk] at hi
      exact .inr (Option.some.inj hi ▸ hid)
    · refine (h.cover i id' hi).imp_left fun hget => ?_
      show (p.girls.erase k).get? i = some id'
      rw [Table.get?_erase_ne _ hik, hget]

theorem foldl_drop (l : List (ℕ × Uid)) (p : Picking) :
    (l.foldl (fun p e => p.drop e.2) p).onlines = p.onlines ∧
    (l.foldl (fun p e => p.drop e.2) p).num = p.num ∧
    ∀ x, x ∈ (l.foldl (fun p e => p.drop e.2) p).all_onlines ↔
      x ∈ p.all_onlines ∧ ∀ e ∈ l, x ≠ e.2 := by
  induction l generalizing p with
  | nil => exact ⟨rfl, rfl, fun x => by simp⟩
  | cons e l ih =>
    obtain ⟨honlines, hnum, hall⟩ := ih (p.drop e.2)
    refine ⟨honlines, hnum, fun x => ?_⟩
    rw [List.foldl_cons, hall, List.forall_mem_cons]
    show x ∈ p.all_onlines.erase e.2 ∧ _ ↔ _
    rw [Table.mem_erase]
    tauto

theorem Picked.dropGirls (h : Picked all uid p) : Picked all uid p.dropGirls := by
  obtain ⟨honlines, hnum, hall⟩ := foldl_drop p.girls.pairs p
  refine ⟨?_, ?_, ?_, ?_, ?_⟩
  · exact hnum.trans (h.num.trans (congrArg List.length honlines.symm))
  · exact honlines ▸ h.nodup
  · exact honlines ▸ h.online
  · intro x hx hmem
    exact h.gone x (honlines ▸ hx) ((hall x).mp hmem).1
  · exact fun x hx => h.sub x ((hall x).mp hx).1

theorem Covered.dropGirls (h : Covered girls p) : NoGirlLeft girls p.dropGirls := by
  obtain ⟨-, -, hall⟩ := foldl_drop p.girls.pairs p
  intro k id hk hmem
  obtain ⟨hmem, hne⟩ := (hall id).mp hmem
  rcases h.cover k id hk with hget | hnot
  · exact hne (k, id) (Table.get?_eq_some.mp hget) rfl
  · exact hnot hmem

end Keep

/-! ## The passes one by one -/

section Passes

variable {all : Table Uid OnlinePlayer} {uid : Uid} {girls : Table ℕ Uid} {p : Picking}

/-- The table's entry that a visit meets. -/
theorem visited_get? {κ α : Type} [DecidableEq κ] {visit : Visits} {t : Table κ α} {e : κ × α}
    {done rest : List (κ × α)} (h : visit.order t = done ++ e :: rest) : t.get? e.1 = some e.2 := by
  have hmem : e ∈ visit.order t := h ▸ List.mem_append_right _ List.mem_cons_self
  exact Table.get?_of_mem_pairs ((visit.perm t).mem_iff.mp hmem)

/-- No entry is visited twice. -/
theorem visited_fresh {κ α : Type} {visit : Visits} {t : Table κ α} {e : κ × α}
    {done rest : List (κ × α)} (h : visit.order t = done ++ e :: rest) :
    e.1 ∉ done.map Prod.fst := by
  have hnodup : ((visit.order t).map Prod.fst).Nodup :=
    ((visit.perm t).map Prod.fst).nodup_iff.mpr t.nodup
  rw [h, List.map_append, List.map_cons, List.nodup_append] at hnodup
  exact fun hmem => hnodup.2.2 e.1 hmem e.1 List.mem_cons_self rfl

theorem loop_pickInRoom (visit : Visits) (h : Picked all uid p) (hnum : p.num < 100) :
    Picked all uid (loop (pickInRoom uid) (visit.order p.all_onlines) p) ∧
      (loop (pickInRoom uid) (visit.order p.all_onlines) p).num ≤ 100 := by
  -- an entry that is still to come is still in the table
  let I (done : List (Uid × OnlinePlayer)) (q : Picking) : Prop :=
    Picked all uid q ∧ q.num < 100 ∧
      ∀ x, x ∈ p.all_onlines → x ∉ done.map Prod.fst → x ∈ q.all_onlines
  have hstep : ∀ done e rest q, visit.order p.all_onlines = done ++ e :: rest → I done q →
      Picked all uid (pickInRoom uid q e).1 ∧ (pickInRoom uid q e).1.num ≤ 100 ∧
        ∀ x, x ∈ p.all_onlines → x ∉ (done ++ [e]).map Prod.fst →
          x ∈ (pickInRoom uid q e).1.all_onlines := by
    rintro done e rest q hl ⟨hq, hlt, hrest⟩
    have hmem : e.1 ∈ q.all_onlines :=
      hrest e.1 (Table.mem_of_get? (visited_get? hl)) (visited_fresh hl)
    have hlater : ∀ x, x ∈ p.all_onlines → x ∉ (done ++ [e]).map Prod.fst →
        x ∈ q.all_onlines.erase e.1 ∧ x ∈ q.all_onlines := by
      intro x hx hnot
      rw [List.map_append, List.mem_append, not_or] at hnot
      have hxq := hrest x hx hnot.1
      exact ⟨Table.mem_erase.mpr ⟨fun heq => hnot.2 (heq ▸ List.mem_singleton_self _), hxq⟩, hxq⟩
    unfold pickInRoom
    by_cases huid : uid = e.1
    · simp only [if_pos huid]
      exact ⟨hq.drop e.1, hlt.le, fun x hx hnot => (hlater x hx hnot).1⟩
    · by_cases hroom : e.2.roomid.isSome
      · simp only [if_neg huid, if_pos hroom]
        exact ⟨hq.pick hmem (Ne.symm huid), hlt, fun x hx hnot => (hlater x hx hnot).1⟩
      · simp only [if_neg huid, if_neg hroom]
        exact ⟨hq, hlt.le, fun x hx hnot => (hlater x hx hnot).2⟩
  refine loop_rule I (Q := fun q => Picked all uid q ∧ q.num ≤ 100)
    ⟨h, hnum, fun x hx _ => hx⟩ ?_ ?_ ?_
  · intro done e rest q hl hI hgo
    obtain ⟨hq, hle, hrest⟩ := hstep done e rest q hl hI
    exact ⟨hq, lt_of_le_of_ne hle (of_decide_eq_false hgo), hrest⟩
  · intro done e rest q hl hI _
    obtain ⟨hq, hle, -⟩ := hstep done e rest q hl hI
    exact ⟨hq, hle⟩
  · rintro q ⟨hq, hlt, -⟩
    exact ⟨hq, hlt.le⟩

/-- After the girls' passes: thirty-five girls are picked, or all have been looked at. -/
structure GirlsPicked (all : Table Uid OnlinePlayer) (uid : Uid) (girls : Table ℕ Uid)
    (p : Picking) : Prop where
  picked : Picked all uid p
  num : p.num ≤ 35
  left : NoGirlLeft girls p

/-- Between them: girls online may be left, but not the player itself. -/
structure GirlsBetween (all : Table Uid OnlinePlayer) (uid : Uid) (girls : Table ℕ Uid)
    (p : Picking) : Prop where
  picked : Picked all uid p
  num : p.num < 35
  covered : Covered girls p
  self : ∀ k, girls.get? k = some uid → uid ∉ p.all_onlines

/-- A girl that is taken is no candidate any more. -/
theorem girl_taken (hpicked : Picked all uid p) (hcovered : Covered girls p) {e : ℕ × Uid}
    (he : girls.get? e.1 = some e.2) (hmem : e.2 ∈ p.all_onlines) (hne : e.2 ≠ uid) :
    Picked all uid ((p.pick e.2).forget e.1) ∧ Covered girls ((p.pick e.2).forget e.1) :=
  ⟨(hpicked.pick hmem hne).forget e.1,
    (hcovered.pick e.2).forget he (Table.not_mem_erase_self _ _)⟩

/-- With thirty-five girls picked the others are dropped. -/
theorem girlsPicked_full (hpicked : Picked all uid p) (hcovered : Covered girls p)
    (hfull : p.num = 35) :
    GirlsPicked all uid girls p.dropGirls ∧ ¬p.dropGirls.num < 35 := by
  have hnum : p.dropGirls.num = 35 := (foldl_drop _ p).2.1.trans hfull
  exact ⟨⟨hpicked.dropGirls, hnum.le, hcovered.dropGirls⟩, hnum.ge.not_gt⟩

/-- The girls in a room are looked at. `seen` are those that have been. -/
structure GirlsInRoom (all : Table Uid OnlinePlayer) (uid : Uid) (girls : Table ℕ Uid)
    (seen : List (ℕ × Uid)) (p : Picking) : Prop where
  picked : Picked all uid p
  num : p.num < 35
  covered : Covered girls p
  self : ∀ e ∈ seen, e.2 = uid → uid ∉ p.all_onlines

theorem GirlsInRoom.step {seen : List (ℕ × Uid)} (h : GirlsInRoom all uid girls seen p)
    {e : ℕ × Uid} (he : girls.get? e.1 = some e.2) :
    ((pickGirlInRoom uid p e).2 = false → GirlsInRoom all uid girls (seen ++ [e])
      (pickGirlInRoom uid p e).1) ∧
    ((pickGirlInRoom uid p e).2 = true → GirlsPicked all uid girls (pickGirlInRoom uid p e).1 ∧
      ¬(pickGirlInRoom uid p e).1.num < 35) := by
  have hseen : ∀ q : Picking, (∀ x, x ∈ q.all_onlines → x ∈ p.all_onlines) →
      (e.2 = uid → uid ∉ q.all_onlines) → ∀ e' ∈ seen ++ [e], e'.2 = uid → uid ∉ q.all_onlines := by
    intro q hsub hnew e' he' huid
    rcases List.mem_append.mp he' with he' | he'
    · exact fun hmem => h.self e' he' huid (hsub uid hmem)
    · rw [List.mem_singleton.mp he'] at huid
      exact hnew huid
  have herase : ∀ x, x ∈ p.all_onlines.erase e.2 → x ∈ p.all_onlines := fun x hx =>
    (Table.mem_erase.mp hx).2
  unfold pickGirlInRoom
  by_cases huid : e.2 = uid
  · -- the player itself
    rw [if_pos huid]
    have hgone := Table.not_mem_erase_self p.all_onlines e.2
    refine ⟨fun _ => ⟨(h.picked.forget e.1).drop e.2, h.num, ?_, ?_⟩, fun hstop => nomatch hstop⟩
    · exact (h.covered.drop e.2).forget he hgone
    · exact hseen _ herase fun _ => huid ▸ hgone
  · rw [if_neg huid]
    cases hget : p.all_onlines.get? e.2 with
    | none =>
      exact ⟨fun _ => ⟨h.picked, h.num, h.covered,
        hseen p (fun _ hx => hx) fun h => absurd h huid⟩, fun hstop => nomatch hstop⟩
    | some v =>
      -- what the girl's room makes of `p`
      obtain ⟨q, hq, hpicked, hcovered, hnum, hsub⟩ : ∃ q,
          (if v.roomid.isSome then (p.pick e.2).forget e.1 else p) = q ∧ Picked all uid q ∧
            Covered girls q ∧ q.num ≤ p.num + 1 ∧ ∀ x, x ∈ q.all_onlines → x ∈ p.all_onlines := by
        by_cases hroom : v.roomid.isSome
        · obtain ⟨hpicked, hcovered⟩ :=
            girl_taken h.picked h.covered he (Table.mem_of_get? hget) huid
          exact ⟨_, if_pos hroom, hpicked, hcovered, le_rfl, herase⟩
        · exact ⟨_, if_neg hroom, h.picked, h.covered, Nat.le_succ _, fun _ hx => hx⟩
      simp only [hq]
      by_cases hfull : q.num = 35
      · rw [if_pos hfull]
        exact ⟨fun hgo => (nomatch hgo), fun _ => girlsPicked_full hpicked hcovered hfull⟩
      · rw [if_neg hfull]
        refine ⟨fun _ => ⟨hpicked, ?_, hcovered, ?_⟩, fun hstop => nomatch hstop⟩
        · have := h.num
          show q.num < 35
          omega
        · exact hseen q hsub fun h => absurd h huid

theorem loop_pickGirlInRoom (visit : Visits) (h : Picked all uid p) (hnum : p.num < 35)
    (hgirls : p.girls = girls) :
    GirlsPicked all uid girls (loop (pickGirlInRoom uid) (visit.order p.girls) p) ∧
        ¬(loop (pickGirlInRoom uid) (visit.order p.girls) p).num < 35 ∨
      GirlsBetween all uid girls (loop (pickGirlInRoom uid) (visit.order p.girls) p) := by
  have hstart : Covered girls p := ⟨fun k id hk => hgirls ▸ hk, fun k id hk => .inl (hgirls ▸ hk)⟩
  have hget : ∀ {done e rest}, visit.order p.girls = done ++ e :: rest →
      girls.get? e.1 = some e.2 := fun hl => hgirls ▸ visited_get? hl
  refine loop_rule (GirlsInRoom all uid girls) (Q := fun q =>
    GirlsPicked all uid girls q ∧ ¬q.num < 35 ∨ GirlsBetween all uid girls q)
    ⟨h, hnum, hstart, fun e he => absurd he List.not_mem_nil⟩ ?_ ?_ ?_
  · intro done e rest q hl hI hgo
    exact (hI.step (hget hl)).1 hgo
  · intro done e rest q hl hI hstop
    exact .inl ((hI.step (hget hl)).2 hstop)
  · intro q hI
    refine .inr ⟨hI.picked, hI.num, hI.covered, fun k hk => ?_⟩
    refine hI.self (k, uid) ((visit.perm p.girls).mem_iff.mpr ?_) rfl
    exact Table.get?_eq_some.mp (hgirls ▸ hk)

/-- The girls that are left are looked at; those in `seen` are no candidates any more. -/
structure GirlsOnline (all : Table Uid OnlinePlayer) (uid : Uid) (girls : Table ℕ Uid)
    (before : Picking) (seen : List (ℕ × Uid)) (p : Picking) : Prop extends
    GirlsBetween all uid girls p where
  fewer : ∀ x, x ∈ p.all_onlines → x ∈ before.all_onlines
  seen : ∀ e ∈ seen, e.2 ∉ p.all_onlines

theorem GirlsOnline.step {before : Picking} {seen : List (ℕ × Uid)}
    (h : GirlsOnline all uid girls before seen p) {e : ℕ × Uid} (he : girls.get? e.1 = some e.2) :
    ((pickGirl p e).2 = false → GirlsOnline all uid girls before (seen ++ [e]) (pickGirl p e).1) ∧
    ((pickGirl p e).2 = true → GirlsPicked all uid girls (pickGirl p e).1) := by
  obtain ⟨q, hq, hpicked, hcovered, hnum, hsub, hgone⟩ : ∃ q,
      (if e.2 ∈ p.all_onlines then (p.pick e.2).forget e.1 else p) = q ∧ Picked all uid q ∧
        Covered girls q ∧ q.num ≤ p.num + 1 ∧ (∀ x, x ∈ q.all_onlines → x ∈ p.all_onlines) ∧
          e.2 ∉ q.all_onlines := by
    by_cases hmem : e.2 ∈ p.all_onlines
    · have hne : e.2 ≠ uid := fun huid => h.self e.1 (huid ▸ he) (huid ▸ hmem)
      obtain ⟨hpicked, hcovered⟩ := girl_taken h.picked h.covered he hmem hne
      exact ⟨_, if_pos hmem, hpicked, hcovered, le_rfl, fun x hx => (Table.mem_erase.mp hx).2,
        Table.not_mem_erase_self _ _⟩
    · exact ⟨_, if_neg hmem, h.picked, h.covered, Nat.le_succ _, fun _ hx => hx, hmem⟩
  unfold pickGirl
  simp only [hq]
  by_cases hfull : q.num = 35
  · rw [if_pos hfull]
    exact ⟨fun hgo => (nomatch hgo), fun _ => (girlsPicked_full hpicked hcovered hfull).1⟩
  · rw [if_neg hfull]
    refine ⟨fun _ => ⟨⟨hpicked, ?_, hcovered, fun k hk hmem => h.self k hk (hsub uid hmem)⟩,
      fun x hx => h.fewer x (hsub x hx), fun e' he' => ?_⟩, fun hstop => nomatch hstop⟩
    · have := h.num
      show q.num < 35
      omega
    · rcases List.mem_append.mp he' with he' | he'
      · exact fun hmem => h.seen e' he' (hsub _ hmem)
      · rw [List.mem_singleton.mp he']
        exact hgone

theorem loop_pickGirl (visit : Visits) (h : GirlsBetween all uid girls p) :
    GirlsPicked all uid girls (loop pickGirl (visit.order p.girls) p) := by
  have hget : ∀ {done e rest}, visit.order p.girls = done ++ e :: rest →
      girls.get? e.1 = some e.2 := fun hl => h.covered.kept _ _ (visited_get? hl)
  refine loop_rule (GirlsOnline all uid girls p) (Q := GirlsPicked all uid girls)
    ⟨h, fun _ hx => hx, fun e he => absurd he List.not_mem_nil⟩ ?_ ?_ ?_
  · intro done e rest q hl hI hgo
    exact (hI.step (hget hl)).1 hgo
  · intro done e rest q hl hI hstop
    exact (hI.step (hget hl)).2 hstop
  · intro q hI
    refine ⟨hI.picked, hI.num.le, fun k id hk => ?_⟩
    rcases h.covered.cover k id hk with hleft | hnot
    · refine hI.seen (k, id) ((visit.perm p.girls).mem_iff.mpr ?_)
      exact Table.get?_eq_some.mp hleft
    · exact fun hmem => hnot (hI.fewer id hmem)

theorem pickGirls_girlsPicked (visit : Visits) (h : Picked all uid p) (hnum : p.num < 35)
    (hgirls : p.girls = girls) : GirlsPicked all uid girls (pickGirls visit uid p) := by
  unfold pickGirls
  rcases loop_pickGirlInRoom visit h hnum hgirls with ⟨hpicked, hfull⟩ | hbetween
  · rw [if_neg hfull]
    exact hpicked
  · rw [if_pos hbetween.num]
    exact loop_pickGirl visit hbetween

/-- Who is picked in the last pass was a candidate before it. -/
structure AnyPicked (all : Table Uid OnlinePlayer) (uid : Uid) (before : Picking)
    (onlines : List Uid) : Prop where
  nodup : onlines.Nodup
  online : ∀ x ∈ onlines, x ∈ all ∧ x ≠ uid
  later : ∃ later, onlines = before.onlines ++ later ∧ ∀ x ∈ later, x ∈ before.all_onlines

theorem AnyPicked.concat {before : Picking} {onlines : List Uid}
    (h : AnyPicked all uid before onlines) {k : Uid} (hk : k ∈ before.all_onlines) (hall : k ∈ all)
    (hne : k ≠ uid) (hnew : k ∉ onlines) : AnyPicked all uid before (onlines ++ [k]) where
  nodup := List.nodup_append.mpr ⟨h.nodup, List.nodup_singleton k, fun a ha b hb hab =>
    hnew ((hab.trans (List.mem_singleton.mp hb)) ▸ ha)⟩
  online x hx := by
    rcases List.mem_append.mp hx with hx | hx
    · exact h.online x hx
    · rw [List.mem_singleton.mp hx]
      exact ⟨hall, hne⟩
  later := by
    obtain ⟨later, heq, hlater⟩ := h.later
    refine ⟨later ++ [k], by rw [heq, List.append_assoc], fun x hx => ?_⟩
    rcases List.mem_append.mp hx with hx | hx
    · exact hlater x hx
    · rw [List.mem_singleton.mp hx]
      exact hk

theorem loop_pickAny (visit : Visits) (h : Picked all uid p) (hnum : p.num < 100) :
    (loop (pickAny uid) (visit.order p.all_onlines) p).onlines.length ≤ 100 ∧
      AnyPicked all uid p (loop (pickAny uid) (visit.order p.all_onlines) p).onlines := by
  let I (seen : List (Uid × OnlinePlayer)) (q : Picking) : Prop :=
    q.num = q.onlines.length ∧ q.num < 100 ∧ AnyPicked all uid p q.onlines ∧
      ∀ x ∈ q.onlines, x ∈ p.onlines ∨ x ∈ seen.map Prod.fst
  have hstep : ∀ seen e rest q, visit.order p.all_onlines = seen ++ e :: rest → I seen q →
      (pickAny uid q e).1.num = (pickAny uid q e).1.onlines.length ∧
        (pickAny uid q e).1.num ≤ 100 ∧ AnyPicked all uid p (pickAny uid q e).1.onlines ∧
          ∀ x ∈ (pickAny uid q e).1.onlines, x ∈ p.onlines ∨ x ∈ (seen ++ [e]).map Prod.fst := by
    rintro seen e rest q hl ⟨hlen, hlt, hq, hseen⟩
    have hmem : e.1 ∈ p.all_onlines := Table.mem_of_get? (visited_get? hl)
    have hkeep : ∀ x ∈ q.onlines, x ∈ p.onlines ∨ x ∈ (seen ++ [e]).map Prod.fst := fun x hx =>
      (hseen x hx).imp_right fun h => by rw [List.map_append]; exact List.mem_append_left _ h
    unfold pickAny
    by_cases huid : e.1 = uid
    · simp only [if_pos huid]
      exact ⟨hlen, hlt.le, hq, hkeep⟩
    · simp only [if_neg huid]
      have hnew : e.1 ∉ q.onlines := fun hx =>
        (hseen e.1 hx).elim (fun hx => h.gone e.1 hx hmem) (visited_fresh hl)
      refine ⟨?_, hlt, hq.concat hmem (h.sub e.1 hmem) huid hnew, fun x hx => ?_⟩
      · rw [hlen, List.length_append, List.length_singleton]
      · rcases List.mem_append.mp hx with hx | hx
        · exact hkeep x hx
        · rw [List.mem_singleton.mp hx, List.map_append]
          exact .inr (List.mem_append_right _ (List.mem_singleton_self _))
  refine loop_rule I (Q := fun q => q.onlines.length ≤ 100 ∧ AnyPicked all uid p q.onlines)
    ⟨h.num, hnum, ⟨h.nodup, h.online, [], (List.append_nil _).symm, fun x hx =>
      absurd hx List.not_mem_nil⟩, fun x hx => .inl hx⟩ ?_ ?_ ?_
  · intro seen e rest q hl hI hgo
    obtain ⟨hlen, hle, hq⟩ := hstep seen e rest q hl hI
    exact ⟨hlen, lt_of_le_of_ne hle (of_decide_eq_false hgo), hq⟩
  · intro seen e rest q hl hI _
    obtain ⟨hlen, hle, hq, -⟩ := hstep seen e rest q hl hI
    exact ⟨hlen ▸ hle, hq⟩
  · rintro q ⟨hlen, hlt, hq, -⟩
    exact ⟨hlen ▸ hlt.le, hq⟩

end Passes

/-! ## The list -/

/-- What the list is to be. -/
structure OnlineList (all_player : Table Uid OnlinePlayer) (uid : Uid) (girls : Table ℕ Uid)
    (onlines : List Uid) : Prop where
  nodup : onlines.Nodup
  online : ∀ x ∈ onlines, x ∈ all_player ∧ isRobot x = false ∧ x ≠ uid
  length : onlines.length ≤ 100
  girls : girls.size ≠ 0 →
    (onlines.filter fun x => girls.pairs.any fun e => e.2 == x).length ≤ 35

/-- The last pass adds no girl to those that are picked. -/
theorem AnyPicked.girls_le {all : Table Uid OnlinePlayer} {uid : Uid} {girls : Table ℕ Uid}
    {p : Picking} (hp : GirlsPicked all uid girls p) {onlines : List Uid}
    (h : AnyPicked all uid p onlines) :
    (onlines.filter fun x => girls.pairs.any fun e => e.2 == x).length ≤ 35 := by
  obtain ⟨later, rfl, hlater⟩ := h.later
  have hnone : later.filter (fun x => girls.pairs.any fun e => e.2 == x) = [] := by
    refine List.filter_eq_nil_iff.mpr fun x hx hgirl => ?_
    obtain ⟨e, he, hex⟩ := List.any_eq_true.mp hgirl
    rw [← eq_of_beq hex] at hx
    exact hp.left e.1 e.2 (Table.get?_of_mem_pairs he) (hlater e.2 hx)
  rw [List.filter_append, hnone, List.append_nil]
  calc _ ≤ p.onlines.length := List.length_filter_le _ _
    _ = p.num := hp.picked.num.symm
    _ ≤ 35 := hp.num

theorem pickFirst_picked (visit : Visits) (all : Table Uid OnlinePlayer) (uid : Uid)
    (girls : Table ℕ Uid) :
    Picked all uid (pickFirst visit uid ⟨[], 0, all, girls⟩) ∧
      (pickFirst visit uid ⟨[], 0, all, girls⟩).num ≤ 100 ∧
      (girls.size ≠ 0 → GirlsPicked all uid girls (pickFirst visit uid ⟨[], 0, all, girls⟩)) := by
  have hstart : Picked all uid ⟨[], 0, all, girls⟩ :=
    ⟨rfl, List.nodup_nil, fun x hx => absurd hx List.not_mem_nil,
      fun x hx => absurd hx List.not_mem_nil, fun x hx => hx⟩
  unfold pickFirst
  by_cases hgirls : girls.size = 0
  · rw [if_pos hgirls]
    obtain ⟨hpick, hnum⟩ := loop_pickInRoom visit hstart (Nat.zero_lt_succ 99)
    exact ⟨hpick, hnum, fun h => absurd hgirls h⟩
  · rw [if_neg hgirls]
    have hpick := pickGirls_girlsPicked visit hstart (Nat.zero_lt_succ 34) rfl
    exact ⟨hpick.picked, hpick.num.trans (by decide), fun _ => hpick⟩

theorem pickRest_anyPicked {all : Table Uid OnlinePlayer} {uid : Uid} {p : Picking}
    (visit : Visits) (h : Picked all uid p) (hnum : p.num ≤ 100) :
    (pickRest visit uid p).onlines.length ≤ 100 ∧
      AnyPicked all uid p (pickRest visit uid p).onlines := by
  unfold pickRest
  by_cases hlt : p.num < 100
  · rw [if_pos hlt]
    exact loop_pickAny visit h hlt
  · rw [if_neg hlt]
    exact ⟨h.num ▸ hnum, h.nodup, h.online, [], (List.append_nil _).symm, fun x hx =>
      absurd hx List.not_mem_nil⟩

/-- In every order of the tables the list has nobody twice, only players online that are neither
robots nor the one who asks, at most a hundred, and of the girls at most thirty-five. -/
theorem getOnline_onlineList (visit : Visits) (all_player : Table Uid OnlinePlayer) (uid : Uid)
    (girls : Table ℕ Uid) :
    OnlineList all_player uid girls (getOnline visit all_player uid girls) := by
  have hall : ∀ x, x ∈ nonRobots all_player → x ∈ all_player ∧ isRobot x = false := by
    intro x hx
    obtain ⟨e, he, rfl⟩ := List.mem_map.mp hx
    obtain ⟨he, hrobot⟩ := List.mem_filter.mp he
    exact ⟨Table.mem_of_mem_pairs he, by simpa using hrobot⟩
  unfold getOnline
  obtain ⟨hpick, hnum, hgirls⟩ := pickFirst_picked visit (nonRobots all_player) uid girls
  obtain ⟨hlen, hany⟩ := pickRest_anyPicked visit hpick hnum
  refine ⟨hany.nodup, fun x hx => ?_, hlen, fun h => hany.girls_le (hgirls h)⟩
  obtain ⟨hmem, hne⟩ := hany.online x hx
  exact ⟨(hall x hmem).1, (hall x hmem).2, hne⟩

end PlayerCenter

end DnServer.Bullfight
