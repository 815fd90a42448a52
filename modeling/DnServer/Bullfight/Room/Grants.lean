import DnServer.Bullfight.Room.Seats

/-!
# The room service: the seats it grants

A fast enter that succeeds names a room and a seat. The answer is true unless the player
is already among the users of that room, for instance left there by an enter that was
refused: then the record is renewed, the seat stays free and is granted again to the
next player. `noteGrants` keeps the seats granted and not given back.

* `truthful_iff_fresh`: a free seat is picked, so the player is on it unless the record
  is only renewed.
* `careful_onSeat`: in careful runs whoever holds a grant is on that seat by the users
  table, and a seat has one holder (`exclusive_of_onSeat`).
-/

namespace DnServer.Bullfight

open DnServer.Lib

namespace RoomService

/-! ## One answer -/

/-- Both records have the player on this seat. -/
def HeldBy (s : State) (roomid : RoomId) (seatid : ℤ) (uid : Uid) : Prop :=
  ∃ room, s.rooms.get? roomid = some room ∧ seatIn room.users uid = some seatid ∧
    holderIn room.seats seatid = some uid

/-- If the answer is a success that names a seat, the player is on it. -/
def Kept (uid : Uid) (r : Result (State × Reply)) : Prop :=
  ∀ t reply roomconf seatid, r = .ok (t, reply) → reply.ret = 0 →
    reply.roomconf = some roomconf → reply.seatid = some seatid →
    HeldBy t roomconf.roomid seatid uid

/-- If the step is a fast enter answered with a seat, the player is then on it. -/
def Truthful (s : State) : Event → Prop
  | .command (.fastEnter address enterconf uplose sumlose) =>
    Kept enterconf.uid (command s (.fastEnter address enterconf uplose sumlose))
  | _ => True

/-- The room a fast enter picks does not have the player among its users. -/
def Fresh (s : State) : Event → Prop
  | .command (.fastEnter _ enterconf uplose sumlose) => ∀ v seatid isprotect room,
      fastFind s enterconf uplose sumlose = .ok (.inl (v, seatid, isprotect)) →
      s.rooms.get? v = some room → enterconf.uid ∉ room.users
  | _ => True

theorem Change.roomconf {c : Command} {room room' : Room} (h : Change c room room') :
    room'.roomconf = room.roomconf := by
  cases h with
  | taken h => unfold takeSeat; rw [if_neg h]; rfl
  | _ => rfl

/-- A room's configuration is the one of its id. -/
theorem reachable_conf : system.Invariant (Each fun k room => room.roomconf.roomid = k) := by
  refine Each.reachable ⟨fun _ => rfl, fun _ _ _ => rfl⟩ ?_ ?_
  · rintro k a b ⟨_, _, _, _, rfl⟩ h
    exact h
  · intro s c hs h
    rcases command_acts (reachable_keyed s hs) c with hsame | ⟨k, room, room', _, hroom, hc, ht⟩
    · rw [hsame]
      exact h
    · rw [ht]
      exact Each.setRoom h (hc.roomconf ▸ h k room hroom)

theorem setRoom_get? {s : State} {k : RoomId} {room : Room} (h : s.rooms.get? k = some room)
    (f : Room → Room) : (s.setRoom k f).rooms.get? k = some (f room) := by
  rw [setRoom_rooms, Table.get?_modify_self, h]
  rfl

theorem heldBy_setRoom {s : State} {k : RoomId} {room : Room} (h : s.rooms.get? k = some room)
    (f : Room → Room) (seatid : ℤ) (uid : Uid) : HeldBy (s.setRoom k f) k seatid uid ↔
      seatIn (f room).users uid = some seatid ∧ holderIn (f room).seats seatid = some uid := by
  constructor
  · rintro ⟨room', hroom', hboth⟩
    obtain rfl := Option.some.inj ((setRoom_get? h f).symm.trans hroom')
    exact hboth
  · intro hboth
    exact ⟨f room, setRoom_get? h f, hboth⟩

/-- A free seat given to a player is held by the player if the player is new. -/
theorem takeSeat_held_iff {room : Room} {enterconf : EnterConf} {seatid : ℤ} {seat : Seat}
    (hseat : room.seats.get? seatid = some seat) (hfree : seat.uid = none) (address : Address) :
    (seatIn (takeSeat room enterconf address seatid).users enterconf.uid = some seatid ∧
      holderIn (takeSeat room enterconf address seatid).seats seatid = some enterconf.uid) ↔
    enterconf.uid ∉ room.users := by
  by_cases hnew : enterconf.uid ∈ room.users
  · refine iff_of_false ?_ (not_not.mpr hnew)
    rintro ⟨_, hheld⟩
    unfold takeSeat at hheld
    rw [if_pos hnew] at hheld
    have : holderIn room.seats seatid = some enterconf.uid := hheld
    rw [holderIn_of_get? hseat, hfree] at this
    cases this
  · refine iff_of_true ?_ hnew
    unfold takeSeat
    rw [if_neg hnew]
    exact ⟨seatIn_set_self _, holderIn_modify_self hseat _⟩

theorem truthful_iff_fresh {s : State} (hs : system.Reachable s) (e : Event) :
    Truthful s e ↔ Fresh s e := by
  cases e with
  | updateRoomconf _ => exact Iff.rfl
  | rehash => exact Iff.rfl
  | command c =>
    cases c with
    | fastEnter address enterconf uplose sumlose =>
      have hcase := fastEnterRoom_cases s address enterconf uplose sumlose
      show Kept enterconf.uid (fastEnterRoom s address enterconf uplose sumlose) ↔ _
      generalize fastEnterRoom s address enterconf uplose sumlose = r at hcase ⊢
      cases hcase with
      | raised h =>
        refine iff_of_true (fun t reply _ _ h => by cases h) ?_
        intro v seatid isprotect room hfind hroom
        exact absurd hroom (h v seatid isprotect room hfind)
      | refused hcode hfind =>
        refine iff_of_true ?_ ?_
        · rintro t reply _ _ ⟨⟩ hret
          rcases hcode with rfl | rfl
          · cases hret
          · cases hret
        · intro v seatid isprotect room h
          rw [hfind] at h
          cases h
      | @granted v seatid isprotect room hroom hfind =>
        obtain ⟨room', seat, hroom', _, hseat, hfree⟩ :=
          fastFind_free (reachable_keyed s hs) hfind
        obtain rfl : room = room' := Option.some.inj (hroom.symm.trans hroom')
        have hheld := (heldBy_setRoom hroom
          (fun room => takeSeat room enterconf address seatid) seatid enterconf.uid).trans
          (takeSeat_held_iff hseat hfree address)
        constructor
        · intro h v' seatid' isprotect' room' hfind' hroom'
          obtain ⟨rfl, rfl, _⟩ :=
            Prod.mk.injEq .. ▸ Sum.inl.inj (Except.ok.inj (hfind.symm.trans hfind'))
          obtain rfl : room = room' := Option.some.inj (hroom.symm.trans hroom')
          have hkept := h _ ⟨0, some room.roomconf, some seatid, some isprotect, some false⟩
            room.roomconf seatid rfl rfl rfl rfl
          rw [reachable_conf s hs v room hroom] at hkept
          exact hheld.mp hkept
        · rintro h t reply roomconf' seatid' ⟨⟩ - ⟨⟩ ⟨⟩
          rw [reachable_conf s hs v room hroom]
          exact hheld.mpr (h v seatid isprotect room hfind hroom)
    | _ => exact Iff.rfl

/-! ## The grants of a run -/

structure Grant where
  uid : Uid
  roomid : RoomId
  seatid : ℤ
deriving DecidableEq

/-- The seat a successful answer grants. -/
def Command.granted (c : Command) (reply : Reply) : List Grant :=
  match c, reply.roomconf, reply.seatid with
  | .fastEnter _ enterconf _ _, some roomconf, some seatid =>
    [⟨enterconf.uid, roomconf.roomid, seatid⟩]
  | .sit uid roomid _ _, _, some seatid => [⟨uid, roomid, seatid⟩]
  | _, _, _ => []

/-- Standing up in a room or leaving it gives its seat back. -/
def Command.givesUp (c : Command) (g : Grant) : Bool :=
  match c with
  | .stand uid roomid _ => uid == g.uid && roomid == g.roomid
  | .quit uid roomid => uid == g.uid && roomid == g.roomid
  | _ => false

/-- The grants after a step: an answered success adds its own and ends those given up. -/
def noteGrants (s : State) (e : Event) (_ : State) (grants : List Grant) : List Grant :=
  match e with
  | .command c =>
    match command s c with
    | .ok (_, reply) =>
      if reply.ret = 0 then c.granted reply ++ grants.filter fun g => !c.givesUp g else grants
    | .error _ => grants
  | _ => grants

/-- The service with the grants of its run. -/
def granting : TSys (State × List Grant) Event := system.observe (fun _ => []) noteGrants

/-- No two players hold one seat. -/
def Exclusive (grants : List Grant) : Prop :=
  ∀ g ∈ grants, ∀ g' ∈ grants, g.roomid = g'.roomid → g.seatid = g'.seatid → g.uid = g'.uid

/-- The player is on the seat by the users table. -/
def OnSeat (s : State) (g : Grant) : Prop :=
  ∃ room, s.rooms.get? g.roomid = some room ∧ seatIn room.users g.uid = some g.seatid

/-- Players on seats of rooms whose records agree are on seats of their own. -/
theorem exclusive_of_onSeat {s : State} (h : Agree s) {grants : List Grant}
    (hon : ∀ g ∈ grants, OnSeat s g) : Exclusive grants := by
  intro g hg g' hg' hroomid hseatid
  obtain ⟨room, hroom, hseat⟩ := hon g hg
  obtain ⟨room', hroom', hseat'⟩ := hon g' hg'
  rw [← hroomid, hroom] at hroom'
  obtain rfl := Option.some.inj hroom'
  rw [← hseatid] at hseat'
  exact (h _ room hroom).mirror.unique hseat hseat'

/-- A command moves no one but its own player. -/
theorem Change.seatIn_other {c : Command} {room room' : Room} (hc : Change c room room') {u : Uid}
    (hu : u ≠ c.uid) : seatIn room'.users u = seatIn room.users u := by
  cases hc with
  | renewed _ => exact seatIn_modify_ne _ hu
  | entered _ => exact seatIn_set_ne _ hu
  | renewedFast _ => exact seatIn_modify_ne _ hu
  | taken hnew _ _ _ =>
    unfold takeSeat
    rw [if_neg hnew]
    exact seatIn_set_ne _ hu
  | dropped _ _ _ _ => exact seatIn_modify_ne _ hu
  | sat _ _ _ _ => exact seatIn_modify_ne _ hu
  | stood _ _ _ _ => exact seatIn_modify_ne _ hu
  | quit _ _ => exact seatIn_erase_ne hu
  | quitSeat _ _ _ _ => exact (seatIn_erase_ne hu).trans (seatIn_modify_ne _ hu)

/-- Renewing a record keeps the seat in it. -/
theorem seatIn_renewed (users : Table Uid User) (uid u : Uid) (address : Address) (info : String) :
    seatIn (users.modify uid fun user => { user with address := address, info := info }) u =
      seatIn users u := by
  unfold seatIn
  rw [Table.get?_modify]
  by_cases hu : u = uid
  · rw [if_pos hu, hu, Option.bind_map]
    rfl
  · rw [if_neg hu]

/-- A proper change keeps its own player's seat too, unless it gives the seat up. -/
theorem Change.seatIn_own {s : State} (h : Agree s) {c : Command} (hp : Proper s (.command c))
    {k : RoomId} (hname : ∀ r, c.roomid = some r → k = r) {room room' : Room}
    (hroom : s.rooms.get? k = some room) (hc : Change c room room') {n : ℤ}
    (hseatIn : seatIn room.users c.uid = some n) (hkeep : c.givesUp ⟨c.uid, k, n⟩ = false) :
    seatIn room'.users c.uid = some n := by
  cases hc with
  | renewed _ => exact (seatIn_renewed _ _ _ _ _).trans hseatIn
  | renewedFast _ => exact (seatIn_renewed _ _ _ _ _).trans hseatIn
  | entered hnew => exact absurd ((seatIn_of_not_mem hnew).symm.trans hseatIn) (by simp)
  | taken hnew _ _ _ => exact absurd ((seatIn_of_not_mem hnew).symm.trans hseatIn) (by simp)
  | @dropped uid roomid seatid IP _ user own seat huser hown hseat huid =>
    obtain rfl : k = roomid := hname roomid rfl
    exfalso
    rcases hp room n hroom hseatIn with rfl | hno
    · exact huid ((holderIn_of_get? hseat).symm.trans (((h k room hroom).mirror uid _).mp hseatIn))
    · exact hno (Table.mem_of_get? hseat)
  | sat huser hown _ _ =>
    exact absurd (((seatIn_of_get? huser).trans hown).symm.trans hseatIn) (by simp)
  | @stood uid roomid =>
    obtain rfl : k = roomid := hname roomid rfl
    simp [Command.givesUp, Command.uid] at hkeep
  | @quit uid roomid =>
    obtain rfl : k = roomid := hname roomid rfl
    simp [Command.givesUp, Command.uid] at hkeep
  | @quitSeat uid roomid =>
    obtain rfl : k = roomid := hname roomid rfl
    simp [Command.givesUp, Command.uid] at hkeep

/-- A proper command leaves everyone on the seat granted, but a player who gives it up. -/
theorem OnSeat.command {s : State} (hk : Keyed s) (h : Agree s) {c : Command}
    (hp : Proper s (.command c)) {g : Grant} (hon : OnSeat s g) (hkeep : c.givesUp g = false) :
    OnSeat (Handler.left (command s c)) g := by
  rcases command_acts hk c with hsame | ⟨k, room, room', hname, hroom, hc, ht⟩
  · rw [hsame]
    exact hon
  · rw [ht]
    obtain ⟨room₀, hroom₀, hseat⟩ := hon
    by_cases hv : g.roomid = k
    · rw [hv, hroom] at hroom₀
      obtain rfl := Option.some.inj hroom₀
      refine ⟨room', hv ▸ setRoom_get? hroom _, ?_⟩
      by_cases hu : g.uid = c.uid
      · rw [hu] at hseat ⊢
        refine hc.seatIn_own h hp hname hroom hseat ?_
        rw [← hkeep, ← hu, ← hv]
      · exact (hc.seatIn_other hu).trans hseat
    · refine ⟨room₀, ?_, hseat⟩
      rw [setRoom_rooms, Table.get?_modify_ne _ _ hv]
      exact hroom₀

/-- A command that gives a seat up and is not answered with success changes nothing. -/
theorem givesUp_refused {s : State} {c : Command} {g : Grant} (hgives : c.givesUp g = true)
    (hret : ∀ p, command s c = .ok p → p.2.ret ≠ 0) : Handler.left (command s c) = s := by
  cases c with
  | stand uid roomid seatid =>
    have hcase := checkStand_cases s uid roomid seatid
    replace hret : ∀ p, checkStand s uid roomid seatid = .ok p → p.2.ret ≠ 0 := hret
    show Handler.left (checkStand s uid roomid seatid) = s
    generalize checkStand s uid roomid seatid = r at hcase hret ⊢
    cases hcase with
    | free => exact (hret _ rfl rfl).elim
    | stands => exact (hret _ rfl rfl).elim
    | _ => rfl
  | quit uid roomid =>
    have hcase := checkQuitRoom_cases s uid roomid
    replace hret : ∀ p, checkQuitRoom s uid roomid = .ok p → p.2.ret ≠ 0 := hret
    show Handler.left (checkQuitRoom s uid roomid) = s
    generalize checkQuitRoom s uid roomid = r at hcase hret ⊢
    cases hcase with
    | standing => exact (hret _ rfl rfl).elim
    | free => exact (hret _ rfl rfl).elim
    | stands => exact (hret _ rfl rfl).elim
    | _ => rfl
  | _ => cases hgives

/-- A seat granted is sat on. -/
theorem granted_onSeat {s : State} (hs : system.Reachable s) {c : Command}
    (hfresh : Fresh s (.command c)) {p : State × Reply} (hp : command s c = .ok p)
    (hret : p.2.ret = 0) {g : Grant} (hg : g ∈ c.granted p.2) : OnSeat p.1 g := by
  obtain ⟨t, reply⟩ := p
  cases c with
  | fastEnter address enterconf uplose sumlose =>
    unfold Command.granted at hg
    split at hg
    · rename_i roomconf seatid heq hconf hseat
      cases heq
      obtain rfl := List.mem_singleton.mp hg
      obtain ⟨room, hroom, hseatIn, _⟩ := (truthful_iff_fresh hs _).mpr hfresh t reply roomconf
        seatid hp hret hconf hseat
      exact ⟨room, hroom, hseatIn⟩
    · rename_i heq _
      cases heq
    · cases hg
  | sit uid roomid seatid IP =>
    have hcase := checkSit_cases s uid roomid seatid IP
    have hsit : checkSit s uid roomid seatid IP = .ok (t, reply) := hp
    rw [hsit] at hcase
    cases hcase with
    | own hroom huser hown _ _ =>
      obtain rfl := List.mem_singleton.mp hg
      exact ⟨_, hroom, (seatIn_of_get? huser).trans hown⟩
    | sits hroom huser _ _ _ =>
      obtain rfl := List.mem_singleton.mp hg
      exact ⟨_, setRoom_get? hroom _, seatIn_modify_self huser _⟩
    | _ => cases hret
  | _ => cases hg

/-- A step that keeps both records and grants no seat twice. -/
def Careful (p : State × List Grant) (e : Event) : Prop := Proper p.1 e ∧ Fresh p.1 e

theorem noteGrants_onSeat {s : State} (hs : system.Reachable s) (h : Agree s) {c : Command}
    (hp : Proper s (.command c)) (hfresh : Fresh s (.command c)) {grants : List Grant}
    (hon : ∀ g ∈ grants, OnSeat s g) :
    ∀ g ∈ noteGrants s (.command c) (Handler.left (command s c)) grants,
      OnSeat (Handler.left (command s c)) g := by
  have hk := reachable_keyed s hs
  -- a grant that is kept although the answer is no success
  have hrest : (∀ p, command s c = .ok p → p.2.ret ≠ 0) →
      ∀ g ∈ grants, OnSeat (Handler.left (command s c)) g := by
    intro hret g hg
    by_cases hgives : c.givesUp g = true
    · rw [givesUp_refused hgives hret]
      exact hon g hg
    · exact (hon g hg).command hk h hp (Bool.not_eq_true _ ▸ hgives)
  intro g hg
  unfold noteGrants at hg
  cases hcommand : command s c with
  | error e =>
    simp only [hcommand] at hg
    rw [← hcommand]
    refine hrest (fun p hp => ?_) g hg
    rw [hcommand] at hp
    cases hp
  | ok p =>
    simp only [hcommand] at hg
    rw [← hcommand]
    split at hg
    · rename_i hret
      rcases List.mem_append.mp hg with hnew | hold
      · have := granted_onSeat hs hfresh hcommand hret hnew
        rwa [hcommand]
      · obtain ⟨hmem, hkeep⟩ := List.mem_filter.mp hold
        exact (hon g hmem).command hk h hp (by simpa using hkeep)
    · rename_i hret
      refine hrest (fun p' hp' => ?_) g hg
      rw [hcommand] at hp'
      obtain rfl := Except.ok.inj hp'
      exact hret

theorem OnSeat.initRoom {s : State} {g : Grant} (hon : OnSeat s g) (result : List RoomConf) :
    OnSeat (initRoom s result) g := by
  obtain ⟨room, hroom, hseat⟩ := hon
  obtain ⟨roomconf, hroom'⟩ := initRoom_keeps hroom result
  exact ⟨_, hroom', hseat⟩

theorem OnSeat.rehash {s t : State} {g : Grant} (hon : OnSeat s g) (h : Rehash s t) :
    OnSeat t g := by
  obtain ⟨room, hroom, hseat⟩ := hon
  obtain ⟨_, hroom', _, users, _, husers, rfl⟩ := h.keeps hroom
  refine ⟨_, hroom', ?_⟩
  show (users.get? g.uid).bind _ = _
  rw [← husers.get?]
  exact hseat

/-- In a run of careful steps the records agree, and every seat granted and not
given back is sat on. -/
theorem careful_onSeat : (granting.restrict Careful).Invariant fun p =>
    Agree p.1 ∧ ∀ g ∈ p.2, OnSeat p.1 g := by
  refine TSys.Inductive.invariant ⟨?_, ?_⟩
  · rintro ⟨s, grants⟩ ⟨hinit, hnil⟩
    obtain rfl : grants = [] := hnil
    exact ⟨proper_agree s (.init hinit), fun g hg => by cases hg⟩
  · rintro ⟨s, grants⟩ e ⟨t, grants'⟩ hs ⟨hagree, hon⟩ ⟨⟨hproper, hfresh⟩, hstep, hnote⟩
    have hreach : system.Reachable s := hs.of_restrict.of_observe
    refine ⟨(step_agree_iff hreach hagree hstep).mpr hproper, ?_⟩
    obtain rfl : grants' = noteGrants s e t grants := hnote
    cases e with
    | command c =>
      obtain rfl : t = Handler.left (command s c) := hstep
      exact noteGrants_onSeat hreach hagree hproper hfresh hon
    | updateRoomconf result =>
      obtain rfl : t = initRoom s result := hstep
      exact fun g hg => (hon g hg).initRoom result
    | rehash => exact fun g hg => (hon g hg).rehash hstep

/-- A fast enter that is answered with a seat seats the player exactly when the
room it picked does not have the player among its users yet; and in a run whose
steps are proper and pick no such room, no two players hold one seat. -/
theorem grants_truthful_iff {s : State} (hs : system.Reachable s) (e : Event) :
    (Truthful s e ↔ Fresh s e) ∧
      (granting.restrict Careful).Invariant fun p => Exclusive p.2 := by
  refine ⟨truthful_iff_fresh hs e, ?_⟩
  rintro ⟨s, grants⟩ hp
  obtain ⟨hagree, hon⟩ := careful_onSeat _ hp
  exact exclusive_of_onSeat hagree hon

/-- The search picks a room that has the player among its users. -/
def stale (s : State) (enterconf : EnterConf) (uplose : Uplose) (sumlose : ℚ) : Bool :=
  match fastFind s enterconf uplose sumlose with
  | .ok (.inl (v, _, _)) => (s.rooms.get? v).any fun room => enterconf.uid ∈ room.users
  | _ => false

theorem fresh_iff_not_stale (s : State) (address : Address) (enterconf : EnterConf)
    (uplose : Uplose) (sumlose : ℚ) :
    Fresh s (.command (.fastEnter address enterconf uplose sumlose)) ↔
      stale s enterconf uplose sumlose = false := by
  show (∀ v seatid isprotect room,
    fastFind s enterconf uplose sumlose = .ok (.inl (v, seatid, isprotect)) →
      s.rooms.get? v = some room → enterconf.uid ∉ room.users) ↔ _
  unfold stale
  split
  · rename_i v seatid isprotect hfind
    cases hroom : s.rooms.get? v with
    | none =>
      refine iff_of_true (fun v' seatid' isprotect' room hfind' hroom' => ?_) rfl
      cases hfind.symm.trans hfind'
      rw [hroom] at hroom'
      cases hroom'
    | some room =>
      rw [Option.any_some, decide_eq_false_iff_not]
      refine ⟨fun h => h v seatid isprotect room hfind hroom, ?_⟩
      intro h v' seatid' isprotect' room' hfind' hroom'
      cases hfind.symm.trans hfind'
      cases hroom.symm.trans hroom'
      exact h
  · rename_i hother
    exact iff_of_true (fun v seatid isprotect _ hfind => absurd hfind (hother v seatid isprotect))
      rfl

instance (s : State) (e : Event) : Decidable (Fresh s e) :=
  match e with
  | .command (.fastEnter address enterconf uplose sumlose) =>
    decidable_of_iff _ (fresh_iff_not_stale s address enterconf uplose sumlose).symm
  | .command (.enter ..) => .isTrue trivial
  | .command (.sit ..) => .isTrue trivial
  | .command (.stand ..) => .isTrue trivial
  | .command (.quit ..) => .isTrue trivial
  | .updateRoomconf _ => .isTrue trivial
  | .rehash => .isTrue trivial

instance (p : State × List Grant) (e : Event) : Decidable (Careful p e) := by
  unfold Careful
  infer_instance

/-- Player 7 has a seat by a fast enter; player 8 is told the truth about the other one, and when
both are seated they hold their seats alone. -/
theorem grants_truthful_iff_seated :
    (∃ s, system.Reachable s ∧ (s.rooms.get? 1).any (fun room => seatIn room.users 7 == some 0) ∧
      Truthful s (.command (fastEntering 8 none))) ∧
    ∃ s grants, (granting.restrict Careful).Reachable (s, grants) ∧ ⟨7, 1, 0⟩ ∈ grants ∧
      ⟨8, 1, 1⟩ ∈ grants ∧ Exclusive grants := by
  constructor
  · obtain ⟨s, hs, hend⟩ := TSys.reachable_of_exec exec_step (s := oneRoom) ⟨_, rfl⟩
      (l := [.command (fastEntering 7 none)])
      (p := fun s => decide ((s.rooms.get? 1).any (fun room => seatIn room.users 7 == some 0) ∧
        Fresh s (.command (fastEntering 8 none)))) (by decide +kernel)
    obtain ⟨hseat, hfresh⟩ := of_decide_eq_true hend
    exact ⟨s, hs, hseat, (grants_truthful_iff hs _).1.mpr hfresh⟩
  · obtain ⟨⟨s, grants⟩, hp, hend⟩ := TSys.reachable_of_exec
      (TSys.restrictExec_step (C := Careful) (T := granting) (TSys.observeExec_step exec_step))
      (s := (oneRoom, [])) ⟨⟨[.twoSeats 1], rfl⟩, rfl⟩
      (l := [.command (fastEntering 7 none), .command (fastEntering 8 none)])
      (p := fun p => decide (⟨7, 1, 0⟩ ∈ p.2 ∧ ⟨8, 1, 1⟩ ∈ p.2)) (by decide +kernel)
    obtain ⟨h7, h8⟩ := of_decide_eq_true hend
    exact ⟨s, grants, hp, h7, h8,
      (grants_truthful_iff hp.of_restrict.of_observe (.command (fastEntering 7 none))).2 _ hp⟩

/-- Two players have entered the room and look for a seat: both are granted seat 0,
and neither is on it. -/
theorem seat_granted_twice :
    (∃ s, system.Reachable s ∧ ¬ Truthful s (.command (fastEntering 7 none))) ∧
      ¬ granting.Invariant fun p => Exclusive p.2 := by
  constructor
  · obtain ⟨s, hs, hstale⟩ := TSys.reachable_of_exec exec_step (s := oneRoom) ⟨_, rfl⟩
      (l := [.command (entering 7)])
      (p := fun s => stale s ⟨some 1, some 11, 7, none, 100, some 0, none, "", none⟩ Table.empty 0)
      (by decide +kernel)
    refine ⟨s, hs, fun h => ?_⟩
    rw [(fresh_iff_not_stale ..).mp ((truthful_iff_fresh hs _).mp h)] at hstale
    cases hstale
  · intro h
    obtain ⟨⟨s, grants⟩, hp, hboth⟩ := TSys.reachable_of_exec
      (T := granting) (TSys.observeExec_step exec_step) (s := (oneRoom, [])) ⟨⟨[.twoSeats 1], rfl⟩, rfl⟩
      (l := [.command (entering 7), .command (entering 8), .command (fastEntering 7 none),
        .command (fastEntering 8 none)])
      (p := fun p => decide (⟨7, 1, 0⟩ ∈ p.2) && decide (⟨8, 1, 0⟩ ∈ p.2)) (by decide +kernel)
    simp only [Bool.and_eq_true, decide_eq_true_eq] at hboth
    have hsame := h _ hp _ hboth.1 _ hboth.2 rfl rfl
    cases hsame

end RoomService

end DnServer.Bullfight
