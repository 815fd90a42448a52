import DnServer.Bullfight.Room.System

/-!
# The room service: what each command can do

One lemma for each command: the tables after it and its answer, with the guard
of the branch taken. The invariants are derived from these.
-/

namespace DnServer.Bullfight

open DnServer.Lib

namespace RoomService

/-! ## The parts that only read -/

theorem getEmptySeat_reads (s : State) (roomid : RoomId) (IP : Option String) :
    Handler.ReadsOnly s (getEmptySeat s roomid IP) := by
  unfold getEmptySeat
  split
  · split
    · exact .ok _
    · exact .ok _
  · exact .error _

/-- A seat found is a free seat of the room, in which no one plays from this address. -/
theorem getEmptySeat_some {s : State} {roomid : RoomId} {IP : Option String} {seatid : ℤ}
    (h : getEmptySeat s roomid IP = .ok (some seatid)) :
    ∃ room seat, s.rooms.get? roomid = some room ∧ sameIP room IP = false ∧
      room.seats.get? seatid = some seat ∧ seat.uid = none := by
  unfold getEmptySeat at h
  split at h
  · rename_i room hroom
    split at h
    · cases h
    · rename_i hIP
      have hfind := Except.ok.inj h
      obtain ⟨p, hp, hid⟩ := Option.map_eq_some_iff.mp hfind
      have hmem := List.mem_of_find?_eq_some hp
      have hfree := List.find?_some hp
      refine ⟨room, p.2, hroom, by simpa using hIP, ?_, by simpa using hfree⟩
      rw [← hid]
      exact Table.get?_of_mem_pairs hmem
  · cases h

theorem searchRoom_reads (s : State) (enterconf : EnterConf) (notroom : RoomId) (roomtype : ℤ)
    (uplose : Uplose) : ∀ (ids : List RoomId) (got : Option (RoomId × ℤ)),
    Handler.ReadsOnly s (searchRoom s enterconf notroom roomtype uplose got ids) := by
  intro ids
  induction ids with
  | nil =>
    intro got
    exact .ok got
  | cons v rest ih =>
    intro got
    unfold searchRoom
    split
    · exact ih got
    · split
      · refine .bind (.index _ _) fun limit _ => ?_
        split
        · refine .bind (getEmptySeat_reads s _ _) fun found _ => ?_
          cases found with
          | none => exact ih got
          | some seatid =>
            dsimp only
            split
            · exact .ok _
            · exact ih _
        · exact ih got
      · exact ih got

/-- Each room is filed under its own id. -/
def Keyed (s : State) : Prop := ∀ k room, s.rooms.get? k = some room → room.roomid = k

/-- What the search may return: a room with a free seat in which no one plays
from the address. -/
def Free (s : State) (IP : Option String) (v : RoomId) (seatid : ℤ) : Prop :=
  ∃ room seat, s.rooms.get? v = some room ∧ sameIP room IP = false ∧
    room.seats.get? seatid = some seat ∧ seat.uid = none

theorem searchRoom_free {s : State} (hk : Keyed s) {enterconf : EnterConf} {notroom : RoomId}
    {roomtype : ℤ} {uplose : Uplose} : ∀ {ids : List RoomId} {got found : Option (RoomId × ℤ)},
    (∀ v seatid, got = some (v, seatid) → Free s enterconf.IP v seatid) →
    searchRoom s enterconf notroom roomtype uplose got ids = .ok found →
    ∀ v seatid, found = some (v, seatid) → Free s enterconf.IP v seatid := by
  intro ids
  induction ids with
  | nil =>
    intro got found hgot h
    obtain rfl : got = found := Except.ok.inj h
    exact hgot
  | cons v rest ih =>
    intro got found hgot h
    unfold searchRoom at h
    split at h
    · exact ih hgot h
    · rename_i room hroom
      split at h
      · cases hlimit : serverconf.uplosemoney roomtype with
        | none =>
          rw [hlimit] at h
          cases h
        | some limit =>
          rw [hlimit, Handler.index_some, Handler.ok_bind] at h
          split at h
          · cases hseat : getEmptySeat s room.roomid enterconf.IP with
            | error e =>
              rw [hseat] at h
              cases h
            | ok seat =>
              rw [hseat, Handler.ok_bind] at h
              cases seat with
              | none => exact ih hgot h
              | some seatid =>
                -- the seat is one of this room, filed under `v`
                have hfree : Free s enterconf.IP v seatid := by
                  have := getEmptySeat_some hseat
                  rwa [hk v room hroom] at this
                have hnew : ∀ w id, some (v, seatid) = some (w, id) →
                    Free s enterconf.IP w id := by
                  rintro _ _ ⟨⟩
                  exact hfree
                dsimp only at h
                split at h
                · obtain rfl : some (v, seatid) = found := Except.ok.inj h
                  exact hnew
                · exact ih hnew h
          · exact ih hgot h
      · exact ih hgot h

theorem getSuitableBasebet_1_reads (s : State) (gametype roomtype : ℤ) (money : ℚ) :
    Handler.ReadsOnly s (getSuitableBasebet_1 s gametype roomtype money) :=
  .bind (.index _ _) fun _ _ => .ok _

theorem fastTarget_reads (s : State) (enterconf : EnterConf) (sumlose : ℚ) :
    Handler.ReadsOnly s (fastTarget s enterconf sumlose) := by
  refine .bind (.index _ _) fun _ _ => ?_
  split
  · exact .ok _
  · split
    · split
      · exact .ok _
      · exact .ok _
    · split
      · split
        · exact .bind (.index _ _) fun _ _ => .ok _
        · exact .ok _
      · exact .ok _

theorem fastBet_reads (s : State) (enterconf : EnterConf) (target : Target) :
    Handler.ReadsOnly s (fastBet s enterconf target) := by
  refine .bind (getSuitableBasebet_1_reads _ _ _ _) fun found _ => ?_
  split
  · exact .bind (.index _ _) fun _ _ => .bind (getSuitableBasebet_1_reads _ _ _ _) fun _ _ => .ok _
  · exact .ok _

theorem fastSearch_reads (s : State) (enterconf : EnterConf) (uplose : Uplose) (target : Target)
    (roomtype basebet : ℤ) :
    Handler.ReadsOnly s (fastSearch s enterconf uplose target roomtype basebet) := by
  unfold fastSearch
  split
  · exact searchRoom_reads _ _ _ _ _ _ _
  · exact .ok _

theorem fastSearch_free {s : State} (hk : Keyed s) {enterconf : EnterConf} {uplose : Uplose}
    {target : Target} {roomtype basebet : ℤ} {v : RoomId} {seatid : ℤ}
    (h : fastSearch s enterconf uplose target roomtype basebet = .ok (some (v, seatid))) :
    Free s enterconf.IP v seatid := by
  unfold fastSearch at h
  split at h
  · exact searchRoom_free hk (by simp) h v seatid rfl
  · cases h

theorem fastTarget_code {s : State} {enterconf : EnterConf} {sumlose : ℚ} {code : ℤ}
    (h : fastTarget s enterconf sumlose = .ok (.inr code)) :
    code = errorcode.OVER_SUMLOSE_LIMIT ∨ code = errorcode.FAST_ENTER_FAILED := by
  unfold fastTarget at h
  cases hgame : enterconf.gametype.bind s.fastroom.get? with
  | none =>
    rw [hgame] at h
    cases h
  | some _ =>
    rw [hgame, Handler.index_some, Handler.ok_bind] at h
    split at h
    · obtain rfl := Sum.inr.inj (Except.ok.inj h)
      exact .inl rfl
    · split at h
      · split at h
        · cases h
        · obtain rfl := Sum.inr.inj (Except.ok.inj h)
          exact .inr rfl
      · split at h
        · split at h
          · rename_i gametype roomtype _ _ _ basebet _
            cases hbet : s.fastbasebet.find? gametype roomtype basebet with
            | none =>
              rw [hbet] at h
              cases h
            | some _ =>
              rw [hbet] at h
              cases h
          · cases h
        · obtain rfl := Sum.inr.inj (Except.ok.inj h)
          exact .inr rfl

theorem fastFind_reads (s : State) (enterconf : EnterConf) (uplose : Uplose) (sumlose : ℚ) :
    Handler.ReadsOnly s (fastFind s enterconf uplose sumlose) := by
  refine .bind (fastTarget_reads s enterconf sumlose) fun found _ => ?_
  cases found with
  | inr code => exact .ok _
  | inl target =>
    refine .bind (fastBet_reads s enterconf target) fun bet _ => ?_
    obtain ⟨basebet, roomtype, isprotect⟩ := bet
    refine .bind (fastSearch_reads s enterconf uplose target roomtype basebet) fun found _ => ?_
    cases found with
    | none => exact .ok _
    | some p => exact .ok _

/-- What the search finds. -/
theorem fastFind_cases {s : State} {enterconf : EnterConf} {uplose : Uplose} {sumlose : ℚ}
    {found : (RoomId × ℤ × Bool) ⊕ ℤ} (h : fastFind s enterconf uplose sumlose = .ok found) :
    (∃ code, found = .inr code ∧
      (code = errorcode.OVER_SUMLOSE_LIMIT ∨ code = errorcode.FAST_ENTER_FAILED)) ∨
    ∃ v seatid isprotect target roomtype basebet, found = .inl (v, seatid, isprotect) ∧
      fastSearch s enterconf uplose target roomtype basebet = .ok (some (v, seatid)) := by
  unfold fastFind at h
  cases htarget : fastTarget s enterconf sumlose with
  | error e =>
    rw [htarget] at h
    cases h
  | ok found =>
    rw [htarget, Handler.ok_bind] at h
    cases found with
    | inr code =>
      obtain rfl := Except.ok.inj h
      exact .inl ⟨code, rfl, fastTarget_code htarget⟩
    | inl target =>
      dsimp only at h
      cases hbet : fastBet s enterconf target with
      | error e =>
        rw [hbet] at h
        cases h
      | ok bet =>
        obtain ⟨basebet, roomtype, isprotect⟩ := bet
        rw [hbet, Handler.ok_bind] at h
        dsimp only at h
        cases hsearch : fastSearch s enterconf uplose target roomtype basebet with
        | error e =>
          rw [hsearch] at h
          cases h
        | ok got =>
          rw [hsearch, Handler.ok_bind] at h
          cases got with
          | none =>
            obtain rfl := Except.ok.inj h
            exact .inl ⟨_, rfl, .inr rfl⟩
          | some p =>
            obtain rfl := Except.ok.inj h
            exact .inr ⟨p.1, p.2, isprotect, target, roomtype, basebet, rfl, hsearch⟩

theorem fastFind_free {s : State} (hk : Keyed s) {enterconf : EnterConf} {uplose : Uplose}
    {sumlose : ℚ} {v : RoomId} {seatid : ℤ} {isprotect : Bool}
    (h : fastFind s enterconf uplose sumlose = .ok (.inl (v, seatid, isprotect))) :
    Free s enterconf.IP v seatid := by
  rcases fastFind_cases h with ⟨_, hcode, _⟩ | ⟨v', seatid', _, _, _, _, hfound, hsearch⟩
  · cases hcode
  · obtain ⟨rfl, rfl, _⟩ := Prod.mk.injEq .. ▸ Sum.inl.inj hfound
    exact fastSearch_free hk hsearch

/-- How a fast enter can end. -/
inductive FastCase (s : State) (address : Address) (enterconf : EnterConf) (uplose : Uplose)
    (sumlose : ℚ) : Result (State × Reply) → Prop
  | raised {e}
      (h : ∀ v seatid isprotect room, fastFind s enterconf uplose sumlose =
        .ok (.inl (v, seatid, isprotect)) → s.rooms.get? v ≠ some room) :
      FastCase s address enterconf uplose sumlose (.error (e, s))
  | refused {code}
      (hcode : code = errorcode.OVER_SUMLOSE_LIMIT ∨ code = errorcode.FAST_ENTER_FAILED)
      (h : fastFind s enterconf uplose sumlose = .ok (.inr code)) :
      FastCase s address enterconf uplose sumlose (.ok (s, .code code))
  | granted {v seatid isprotect room} (hroom : s.rooms.get? v = some room)
      (h : fastFind s enterconf uplose sumlose = .ok (.inl (v, seatid, isprotect))) :
      FastCase s address enterconf uplose sumlose
        (.ok (s.setRoom v fun room => takeSeat room enterconf address seatid,
          ⟨0, some room.roomconf, some seatid, some isprotect, some false⟩))

theorem fastEnterRoom_cases (s : State) (address : Address) (enterconf : EnterConf)
    (uplose : Uplose) (sumlose : ℚ) :
    FastCase s address enterconf uplose sumlose
      (fastEnterRoom s address enterconf uplose sumlose) := by
  unfold fastEnterRoom
  cases hfind : fastFind s enterconf uplose sumlose with
  | error e =>
    obtain ⟨e, t⟩ := e
    obtain rfl : t = s := fastFind_reads s enterconf uplose sumlose _ hfind
    refine .raised fun v seatid isprotect room h => ?_
    rw [hfind] at h
    cases h
  | ok found =>
    rw [Handler.ok_bind]
    rcases fastFind_cases hfind with
      ⟨code, rfl, hcode⟩ | ⟨v, seatid, isprotect, _, _, _, rfl, _⟩
    · exact .refused hcode hfind
    · dsimp only
      cases hroom : s.rooms.get? v with
      | none =>
        refine .raised fun v' seatid' isprotect' room h => ?_
        rw [hfind] at h
        obtain ⟨rfl, _⟩ := Prod.mk.injEq .. ▸ Sum.inl.inj (Except.ok.inj h)
        rw [hroom]
        simp
      | some room => exact .granted hroom hfind

/-! ## Writing into the tables -/

@[simp] theorem setRoom_rooms (s : State) (k : RoomId) (f : Room → Room) :
    (s.setRoom k f).rooms = s.rooms.modify k f := rfl

theorem setRoom_setRoom (s : State) (k : RoomId) (f g : Room → Room) :
    (s.setRoom k f).setRoom k g = s.setRoom k fun room => g (f room) := by
  unfold State.setRoom
  rw [Table.modify_modify]

/-! ## Entering -/

theorem enterLimit_reads (s : State) (uid : Uid) (roomid : RoomId) (uplose : Uplose)
    (sumlose : ℚ) (roomtype_li : Option ℤ) (ret : ℤ) :
    Handler.ReadsOnly s (enterLimit s uid roomid uplose sumlose roomtype_li ret) := by
  refine .bind (.index _ _) fun mine _ => ?_
  split
  · refine .bind (.index _ _) fun limit _ => ?_
    split
    · exact .ok _
    · exact .ok _
  · exact .ok _

/-- How an enter can end. -/
inductive EnterCase (s : State) (address : Address) (uid : Uid) (roomid : RoomId) (info : String)
    (uplose : Uplose) (sumlose : ℚ) (roomtype_li : Option ℤ) : Result (State × Reply) → Prop
  | noRoom (h : ∀ room, s.rooms.get? roomid = some room → room.roomconf.state ≠ 0) :
      EnterCase s address uid roomid info uplose sumlose roomtype_li
        (.ok (s, .code errorcode.HAVE_NO_THIS_ROOM))
  | raised {room e} (hroom : s.rooms.get? roomid = some room) (hopen : room.roomconf.state = 0)
      (h : enterLimit (s.setRoom roomid fun _ => (enterRoom room address uid info).1) uid roomid
        uplose sumlose roomtype_li (enterRoom room address uid info).2 = .error e) :
      EnterCase s address uid roomid info uplose sumlose roomtype_li
        (.error (e.1, s.setRoom roomid fun _ => (enterRoom room address uid info).1))
  | answered {room ret} (hroom : s.rooms.get? roomid = some room) (hopen : room.roomconf.state = 0)
      (h : enterLimit (s.setRoom roomid fun _ => (enterRoom room address uid info).1) uid roomid
        uplose sumlose roomtype_li (enterRoom room address uid info).2 = .ok ret) :
      EnterCase s address uid roomid info uplose sumlose roomtype_li
        (.ok (s.setRoom roomid fun _ => (enterRoom room address uid info).1,
          ⟨ret, some room.roomconf, none, none, none⟩))

theorem checkEnter_cases (s : State) (address : Address) (uid : Uid) (roomid : RoomId)
    (info : String) (uplose : Uplose) (sumlose : ℚ) (roomtype_li : Option ℤ) :
    EnterCase s address uid roomid info uplose sumlose roomtype_li
      (checkEnter s address uid roomid info uplose sumlose roomtype_li) := by
  unfold checkEnter
  split
  · rename_i hroom
    refine .noRoom fun room h => ?_
    rw [hroom] at h
    cases h
  · rename_i room hroom
    split
    · rename_i hclosed
      refine .noRoom fun room' h => ?_
      rw [hroom] at h
      obtain rfl := Option.some.inj h
      exact hclosed
    · rename_i hopen
      have hopen : room.roomconf.state = 0 := not_not.mp hopen
      cases hlimit : enterLimit (s.setRoom roomid fun _ => (enterRoom room address uid info).1) uid
        roomid uplose sumlose roomtype_li (enterRoom room address uid info).2 with
      | error e =>
        have hs := enterLimit_reads _ uid roomid uplose sumlose roomtype_li _ e hlimit
        have h := EnterCase.raised (s := s) hroom hopen hlimit
        rw [← hs] at h
        dsimp only
        rw [hlimit]
        exact h
      | ok ret =>
        dsimp only
        rw [hlimit]
        exact .answered hroom hopen hlimit

/-! ## Sitting down -/

/-- How a sit can end. -/
inductive SitCase (s : State) (uid : Uid) (roomid : RoomId) (seatid : ℤ) (IP : Option String) :
    Result (State × Reply) → Prop
  | noRoom (h : s.rooms.get? roomid = none) :
      SitCase s uid roomid seatid IP (.error (.nilIndex, s))
  | stranger {room} (hroom : s.rooms.get? roomid = some room) (h : room.users.get? uid = none) :
      SitCase s uid roomid seatid IP (.ok (s, .code errorcode.PLAYER_NOT_IN_ROOM))
  | seatedNoSeat {room user own} (hroom : s.rooms.get? roomid = some room)
      (huser : room.users.get? uid = some user) (hown : user.seatid = some own)
      (h : room.seats.get? seatid = none) : SitCase s uid roomid seatid IP (.error (.nilIndex, s))
  | own {room user own seat} (hroom : s.rooms.get? roomid = some room)
      (huser : room.users.get? uid = some user) (hown : user.seatid = some own)
      (hseat : room.seats.get? seatid = some seat) (h : seat.uid = some uid) :
      SitCase s uid roomid seatid IP (.ok (s, ⟨0, none, some own, none, none⟩))
  | drop {room user own seat} (hroom : s.rooms.get? roomid = some room)
      (huser : room.users.get? uid = some user) (hown : user.seatid = some own)
      (hseat : room.seats.get? seatid = some seat) (h : seat.uid ≠ some uid) :
      SitCase s uid roomid seatid IP
        (.ok (s.setRoom roomid fun room => room.setUser uid fun user => { user with seatid := none },
          .code errorcode.SEAT_HAVE_PLAYER))
  | noSeat {room user} (hroom : s.rooms.get? roomid = some room)
      (huser : room.users.get? uid = some user) (hown : user.seatid = none)
      (h : room.seats.get? seatid = none) :
      SitCase s uid roomid seatid IP (.ok (s, .code errorcode.HAVE_NO_THIS_SEAT))
  | sits {room user seat} (hroom : s.rooms.get? roomid = some room)
      (huser : room.users.get? uid = some user) (hown : user.seatid = none)
      (hseat : room.seats.get? seatid = some seat) (h : seat.uid = none) :
      SitCase s uid roomid seatid IP
        (.ok (s.setRoom roomid fun room => sitDown room uid seatid IP,
          ⟨0, none, some seatid, none, none⟩))
  | occupied {room user seat} (hroom : s.rooms.get? roomid = some room)
      (huser : room.users.get? uid = some user) (hown : user.seatid = none)
      (hseat : room.seats.get? seatid = some seat) (h : seat.uid ≠ none) :
      SitCase s uid roomid seatid IP (.ok (s, .code errorcode.SEAT_HAVE_PLAYER))

theorem checkSit_cases (s : State) (uid : Uid) (roomid : RoomId) (seatid : ℤ)
    (IP : Option String) : SitCase s uid roomid seatid IP (checkSit s uid roomid seatid IP) := by
  unfold checkSit
  cases hroom : s.rooms.get? roomid with
  | none => exact .noRoom hroom
  | some room =>
    rw [Handler.index_some, Handler.ok_bind]
    split
    · rename_i huser
      exact .stranger hroom huser
    · rename_i user huser
      split
      · rename_i own hown
        cases hseat : room.seats.get? seatid with
        | none => exact .seatedNoSeat hroom huser hown hseat
        | some seat =>
          rw [Handler.index_some, Handler.ok_bind]
          split
          · rename_i h
            exact .own hroom huser hown hseat h
          · rename_i h
            exact .drop hroom huser hown hseat h
      · rename_i hown
        split
        · rename_i hseat
          exact .noSeat hroom huser hown hseat
        · rename_i seat hseat
          split
          · rename_i h
            exact .sits hroom huser hown hseat h
          · rename_i h
            exact .occupied hroom huser hown hseat h

/-! ## Standing up and leaving -/

/-- How a stand can end. -/
inductive StandCase (s : State) (uid : Uid) (roomid : RoomId) (seatid : ℤ) :
    Result (State × Reply) → Prop
  | noRoom (h : s.rooms.get? roomid = none) : StandCase s uid roomid seatid (.error (.nilIndex, s))
  | stranger {room} (hroom : s.rooms.get? roomid = some room) (h : room.users.get? uid = none) :
      StandCase s uid roomid seatid (.ok (s, .code errorcode.PLAYER_NOT_IN_ROOM))
  | standing {room user} (hroom : s.rooms.get? roomid = some room)
      (huser : room.users.get? uid = some user) (hown : user.seatid = none) :
      StandCase s uid roomid seatid (.ok (s, .code errorcode.PLAYER_IS_NOT_SIT))
  | noSeat {room user own} (hroom : s.rooms.get? roomid = some room)
      (huser : room.users.get? uid = some user) (hown : user.seatid = some own)
      (h : room.seats.get? seatid = none) : StandCase s uid roomid seatid (.error (.nilIndex, s))
  | free {room user own seat} (hroom : s.rooms.get? roomid = some room)
      (huser : room.users.get? uid = some user) (hown : user.seatid = some own)
      (hseat : room.seats.get? seatid = some seat) (h : seat.uid = none) :
      StandCase s uid roomid seatid (.ok (s, .code 0))
  | stands {room user own seat holder} (hroom : s.rooms.get? roomid = some room)
      (huser : room.users.get? uid = some user) (hown : user.seatid = some own)
      (hseat : room.seats.get? seatid = some seat) (h : seat.uid = some holder) :
      StandCase s uid roomid seatid
        (.ok (s.setRoom roomid fun room => standUp room uid seatid, .code 0))

theorem checkStand_cases (s : State) (uid : Uid) (roomid : RoomId) (seatid : ℤ) :
    StandCase s uid roomid seatid (checkStand s uid roomid seatid) := by
  unfold checkStand
  cases hroom : s.rooms.get? roomid with
  | none => exact .noRoom hroom
  | some room =>
    rw [Handler.index_some, Handler.ok_bind]
    split
    · rename_i huser
      exact .stranger hroom huser
    · rename_i user huser
      cases hown : user.seatid with
      | none => exact .standing hroom huser hown
      | some own =>
        rw [if_pos (Option.isSome_some)]
        cases hseat : room.seats.get? seatid with
        | none => exact .noSeat hroom huser hown hseat
        | some seat =>
          rw [Handler.index_some, Handler.ok_bind]
          cases hholder : seat.uid with
          | none => exact .free hroom huser hown hseat hholder
          | some holder => exact .stands hroom huser hown hseat hholder

/-- How a quit can end. -/
inductive QuitCase (s : State) (uid : Uid) (roomid : RoomId) : Result (State × Reply) → Prop
  | noRoom (h : s.rooms.get? roomid = none) : QuitCase s uid roomid (.error (.nilIndex, s))
  | stranger {room} (hroom : s.rooms.get? roomid = some room) (h : room.users.get? uid = none) :
      QuitCase s uid roomid (.ok (s, .code errorcode.PLAYER_NOT_IN_ROOM))
  | standing {room user} (hroom : s.rooms.get? roomid = some room)
      (huser : room.users.get? uid = some user) (hown : user.seatid = none) :
      QuitCase s uid roomid (.ok (s.setRoom roomid fun room => leave room uid, .code 0))
  | noSeat {room user own} (hroom : s.rooms.get? roomid = some room)
      (huser : room.users.get? uid = some user) (hown : user.seatid = some own)
      (h : room.seats.get? own = none) : QuitCase s uid roomid (.error (.nilIndex, s))
  | free {room user own seat} (hroom : s.rooms.get? roomid = some room)
      (huser : room.users.get? uid = some user) (hown : user.seatid = some own)
      (hseat : room.seats.get? own = some seat) (h : seat.uid = none) :
      QuitCase s uid roomid (.ok (s.setRoom roomid fun room => leave room uid, .code 0))
  | stands {room user own seat holder} (hroom : s.rooms.get? roomid = some room)
      (huser : room.users.get? uid = some user) (hown : user.seatid = some own)
      (hseat : room.seats.get? own = some seat) (h : seat.uid = some holder) :
      QuitCase s uid roomid
        (.ok (s.setRoom roomid fun room => leave (standUp room uid own) uid, .code 0))

theorem checkQuitRoom_cases (s : State) (uid : Uid) (roomid : RoomId) :
    QuitCase s uid roomid (checkQuitRoom s uid roomid) := by
  unfold checkQuitRoom
  cases hroom : s.rooms.get? roomid with
  | none => exact .noRoom hroom
  | some room =>
    rw [Handler.index_some, Handler.ok_bind]
    split
    · rename_i huser
      exact .stranger hroom huser
    · rename_i user huser
      cases hown : user.seatid with
      | none => exact .standing hroom huser hown
      | some own =>
        dsimp only
        have hcase := checkStand_cases s uid roomid own
        generalize checkStand s uid roomid own = r at hcase ⊢
        cases hcase with
        | noRoom h => simp [hroom] at h
        | stranger hroom' h =>
          obtain rfl : room = _ := Option.some.inj (hroom.symm.trans hroom')
          rw [huser] at h
          cases h
        | standing hroom' huser' h =>
          obtain rfl : room = _ := Option.some.inj (hroom.symm.trans hroom')
          obtain rfl : user = _ := Option.some.inj (huser.symm.trans huser')
          rw [hown] at h
          cases h
        | noSeat hroom' _ _ h =>
          obtain rfl : room = _ := Option.some.inj (hroom.symm.trans hroom')
          exact .noSeat hroom huser hown h
        | free hroom' _ _ hseat h =>
          obtain rfl : room = _ := Option.some.inj (hroom.symm.trans hroom')
          exact .free hroom huser hown hseat h
        | stands hroom' _ _ hseat h =>
          obtain rfl : room = _ := Option.some.inj (hroom.symm.trans hroom')
          have hquit := QuitCase.stands hroom huser hown hseat h
          have hboth := setRoom_setRoom s roomid (fun room => standUp room uid own)
            fun room => leave room uid
          rw [← hboth] at hquit
          exact hquit

/-! ## What a command does to the room it is about -/

/-- The changes of a room's tables, each with the command and the guard it needs. -/
inductive Change : Command → Room → Room → Prop
  | renewed {address uid roomid info uplose sumlose roomtype_li room} (h : uid ∈ room.users) :
      Change (.enter address uid roomid info uplose sumlose roomtype_li) room
        (room.setUser uid fun user => { user with address := address, info := info })
  | entered {address uid roomid info uplose sumlose roomtype_li room} (h : uid ∉ room.users) :
      Change (.enter address uid roomid info uplose sumlose roomtype_li) room
        { room with
          users := room.users.set uid ⟨address, uid, none, info⟩
          curusern := room.curusern + 1 }
  | renewedFast {address enterconf uplose sumlose room} (h : enterconf.uid ∈ room.users) :
      Change (.fastEnter address enterconf uplose sumlose) room
        (room.setUser enterconf.uid fun user =>
          { user with address := address, info := enterconf.info })
  | taken {address enterconf uplose sumlose room seatid seat} (h : enterconf.uid ∉ room.users)
      (hIP : sameIP room enterconf.IP = false) (hseat : room.seats.get? seatid = some seat)
      (hfree : seat.uid = none) :
      Change (.fastEnter address enterconf uplose sumlose) room
        (takeSeat room enterconf address seatid)
  | dropped {uid roomid seatid IP room user own seat} (huser : room.users.get? uid = some user)
      (hown : user.seatid = some own) (hseat : room.seats.get? seatid = some seat)
      (h : seat.uid ≠ some uid) :
      Change (.sit uid roomid seatid IP) room
        (room.setUser uid fun user => { user with seatid := none })
  | sat {uid roomid seatid IP room user seat} (huser : room.users.get? uid = some user)
      (hown : user.seatid = none) (hseat : room.seats.get? seatid = some seat)
      (h : seat.uid = none) :
      Change (.sit uid roomid seatid IP) room (sitDown room uid seatid IP)
  | stood {uid roomid seatid room user own seat holder}
      (huser : room.users.get? uid = some user) (hown : user.seatid = some own)
      (hseat : room.seats.get? seatid = some seat) (h : seat.uid = some holder) :
      Change (.stand uid roomid seatid) room (standUp room uid seatid)
  | quit {uid roomid room user} (huser : room.users.get? uid = some user)
      (h : ∀ own, user.seatid = some own → ∃ seat, room.seats.get? own = some seat ∧
        seat.uid = none) :
      Change (.quit uid roomid) room (leave room uid)
  | quitSeat {uid roomid room user own seat holder} (huser : room.users.get? uid = some user)
      (hown : user.seatid = some own) (hseat : room.seats.get? own = some seat)
      (h : seat.uid = some holder) :
      Change (.quit uid roomid) room (leave (standUp room uid own) uid)

theorem setRoom_eq {s : State} {k : RoomId} {room : Room} (h : s.rooms.get? k = some room)
    (f : Room → Room) : s.setRoom k f = s.setRoom k fun _ => f room := by
  unfold State.setRoom Table.modify
  congr 1
  refine Table.mapVal_congr fun k' v hv => ?_
  by_cases hk : k' = k
  · subst hk
    rw [h] at hv
    rw [Option.some.inj hv]
  · rw [if_neg hk, if_neg hk]

theorem setRoom_self {s : State} {k : RoomId} {room : Room} (h : s.rooms.get? k = some room) :
    (s.setRoom k fun _ => room) = s := by
  unfold State.setRoom Table.modify
  have : (s.rooms.mapVal fun k' v => if k' = k then room else v) = s.rooms := by
    refine Table.mapVal_eq_self fun k' v hv => ?_
    by_cases hk : k' = k
    · subst hk
      rw [h] at hv
      rw [if_pos rfl, Option.some.inj hv]
    · rw [if_neg hk]
  rw [this]

/-- A command leaves the tables alone or makes one change in one room, the one it
names if it names one. -/
def Acts (s : State) (c : Command) (t : State) : Prop :=
  t = s ∨ ∃ k room room', (∀ r, c.roomid = some r → k = r) ∧ s.rooms.get? k = some room ∧
    Change c room room' ∧ t = s.setRoom k fun _ => room'

theorem Acts.named {s t : State} {c : Command} {k : RoomId} (hname : c.roomid = some k)
    {room room' : Room} (hroom : s.rooms.get? k = some room) (hc : Change c room room')
    (ht : t = s.setRoom k fun _ => room') : Acts s c t :=
  .inr ⟨k, room, room', fun _ h => Option.some.inj (hname.symm.trans h), hroom, hc, ht⟩

theorem checkEnter_acts (s : State) (address : Address) (uid : Uid) (roomid : RoomId)
    (info : String) (uplose : Uplose) (sumlose : ℚ) (roomtype_li : Option ℤ) :
    Acts s (.enter address uid roomid info uplose sumlose roomtype_li)
      (Handler.left (checkEnter s address uid roomid info uplose sumlose roomtype_li)) := by
  -- entering itself, whatever the limits say afterwards
  have henter : ∀ room, s.rooms.get? roomid = some room →
      Acts s (.enter address uid roomid info uplose sumlose roomtype_li)
        (s.setRoom roomid fun _ => (enterRoom room address uid info).1) := by
    intro room hroom
    unfold enterRoom
    split
    · rename_i h
      exact .named rfl hroom (.renewed h) rfl
    · rename_i h
      split
      · exact .inl (setRoom_self hroom)
      · exact .named rfl hroom (.entered h) rfl
  have hcase := checkEnter_cases s address uid roomid info uplose sumlose roomtype_li
  generalize checkEnter s address uid roomid info uplose sumlose roomtype_li = r at hcase ⊢
  cases hcase with
  | noRoom _ => exact .inl rfl
  | raised hroom _ _ => exact henter _ hroom
  | answered hroom _ _ => exact henter _ hroom

theorem fastEnterRoom_acts {s : State} (hk : Keyed s) (address : Address) (enterconf : EnterConf)
    (uplose : Uplose) (sumlose : ℚ) :
    Acts s (.fastEnter address enterconf uplose sumlose)
      (Handler.left (fastEnterRoom s address enterconf uplose sumlose)) := by
  have hcase := fastEnterRoom_cases s address enterconf uplose sumlose
  generalize fastEnterRoom s address enterconf uplose sumlose = r at hcase ⊢
  cases hcase with
  | raised _ => exact .inl rfl
  | refused _ _ => exact .inl rfl
  | @granted v seatid _ room hroom h =>
    obtain ⟨room', seat, hroom', hIP, hseat, hfree⟩ := fastFind_free hk h
    obtain rfl : room = room' := Option.some.inj (hroom.symm.trans hroom')
    rw [Handler.left_ok, setRoom_eq hroom]
    refine .inr ⟨v, room, _, by rintro _ ⟨⟩, hroom, ?_, rfl⟩
    by_cases hnew : enterconf.uid ∈ room.users
    · unfold takeSeat
      rw [if_pos hnew]
      exact .renewedFast hnew
    · exact .taken hnew hIP hseat hfree

theorem checkSit_acts (s : State) (uid : Uid) (roomid : RoomId) (seatid : ℤ)
    (IP : Option String) :
    Acts s (.sit uid roomid seatid IP) (Handler.left (checkSit s uid roomid seatid IP)) := by
  have hcase := checkSit_cases s uid roomid seatid IP
  generalize checkSit s uid roomid seatid IP = r at hcase ⊢
  cases hcase with
  | drop hroom huser hown hseat h =>
    exact .named rfl hroom (.dropped huser hown hseat h) (setRoom_eq hroom _)
  | sits hroom huser hown hseat h =>
    exact .named rfl hroom (.sat huser hown hseat h) (setRoom_eq hroom _)
  | _ => exact .inl rfl

theorem checkStand_acts (s : State) (uid : Uid) (roomid : RoomId) (seatid : ℤ) :
    Acts s (.stand uid roomid seatid) (Handler.left (checkStand s uid roomid seatid)) := by
  have hcase := checkStand_cases s uid roomid seatid
  generalize checkStand s uid roomid seatid = r at hcase ⊢
  cases hcase with
  | stands hroom huser hown hseat h =>
    exact .named rfl hroom (.stood huser hown hseat h) (setRoom_eq hroom _)
  | _ => exact .inl rfl

theorem checkQuitRoom_acts (s : State) (uid : Uid) (roomid : RoomId) :
    Acts s (.quit uid roomid) (Handler.left (checkQuitRoom s uid roomid)) := by
  have hcase := checkQuitRoom_cases s uid roomid
  generalize checkQuitRoom s uid roomid = r at hcase ⊢
  cases hcase with
  | standing hroom huser hown =>
    refine .named rfl hroom (.quit huser ?_) (setRoom_eq hroom _)
    intro own h
    rw [hown] at h
    cases h
  | free hroom huser hown hseat h =>
    refine .named rfl hroom (.quit huser ?_) (setRoom_eq hroom _)
    intro own h'
    rw [hown] at h'
    obtain rfl := Option.some.inj h'
    exact ⟨_, hseat, h⟩
  | stands hroom huser hown hseat h =>
    exact .named rfl hroom (.quitSeat huser hown hseat h) (setRoom_eq hroom _)
  | _ => exact .inl rfl

theorem command_acts {s : State} (hk : Keyed s) (c : Command) :
    Acts s c (Handler.left (command s c)) := by
  cases c with
  | enter address uid roomid info uplose sumlose roomtype_li =>
    exact checkEnter_acts s address uid roomid info uplose sumlose roomtype_li
  | fastEnter address enterconf uplose sumlose =>
    exact fastEnterRoom_acts hk address enterconf uplose sumlose
  | sit uid roomid seatid IP => exact checkSit_acts s uid roomid seatid IP
  | stand uid roomid seatid => exact checkStand_acts s uid roomid seatid
  | quit uid roomid => exact checkQuitRoom_acts s uid roomid

/-! ## Facts about every room -/

/-- `Q` holds of each room. -/
def Each (Q : RoomId → Room → Prop) (s : State) : Prop :=
  ∀ k room, s.rooms.get? k = some room → Q k room

variable {Q : RoomId → Room → Prop}

theorem Each.setRoom {s : State} (h : Each Q s) {k : RoomId} {room : Room} (hroom : Q k room) :
    Each Q (s.setRoom k fun _ => room) := by
  intro k' v hv
  rw [setRoom_rooms, Table.get?_modify] at hv
  by_cases hk : k' = k
  · subst hk
    rw [if_pos rfl] at hv
    obtain ⟨_, _, rfl⟩ := Option.map_eq_some_iff.mp hv
    exact hroom
  · rw [if_neg hk] at hv
    exact h k' v hv

/-- A new room satisfies `Q`, and another configuration for the room keeps it. -/
structure ConfFree (Q : RoomId → Room → Prop) : Prop where
  new : ∀ conf, Q conf.roomid (newRoom conf)
  conf : ∀ room conf, Q conf.roomid room → Q conf.roomid { room with roomconf := conf }

theorem Each.creatRoom (hQ : ConfFree Q) {s : State} (h : Each Q s) (roomconf : RoomConf) :
    Each Q (creatRoom s roomconf) := by
  unfold RoomService.creatRoom
  split
  · intro k v hv
    unfold updateRoom at hv
    rw [setRoom_rooms, Table.get?_modify] at hv
    by_cases hk : k = roomconf.roomid
    · rw [if_pos hk] at hv
      obtain ⟨room, hroom, rfl⟩ := Option.map_eq_some_iff.mp hv
      split
      · rw [hk] at hroom ⊢
        exact hQ.conf room roomconf (h _ room hroom)
      · exact h k room hroom
    · rw [if_neg hk] at hv
      exact h k v hv
  · intro k v hv
    rw [Table.get?_set] at hv
    by_cases hk : k = roomconf.roomid
    · rw [if_pos hk] at hv
      obtain rfl := Option.some.inj hv
      rw [hk]
      exact hQ.new roomconf
    · rw [if_neg hk] at hv
      exact h k v hv

theorem Each.initRow (hQ : ConfFree Q) {s : State} (h : Each Q s) (roomconf : RoomConf) :
    Each Q (initRow s roomconf) := by
  unfold RoomService.initRow
  split
  · exact h.creatRoom hQ roomconf
  · exact h.creatRoom hQ roomconf

theorem Each.initRoom (hQ : ConfFree Q) {s : State} (h : Each Q s) (result : List RoomConf) :
    Each Q (initRoom s result) := by
  unfold RoomService.initRoom
  split
  · have hrows : ∀ (rows : List RoomConf) (s : State), Each Q s →
        Each Q (rows.foldl RoomService.initRow s) := by
      intro rows
      induction rows with
      | nil =>
        intro s hs
        exact hs
      | cons roomconf rest ih =>
        intro s hs
        exact ih _ (hs.initRow hQ roomconf)
    exact hrows result _ h
  · exact h

/-- A room that is there stays, with its users and seats, whatever configurations come. -/
theorem initRoom_keeps {s : State} {k : RoomId} {room : Room} (h : s.rooms.get? k = some room)
    (result : List RoomConf) : ∃ roomconf,
      (initRoom s result).rooms.get? k = some { room with roomconf := roomconf } := by
  have hcreat : ∀ (s : State) (roomconf : RoomConf),
      (∃ conf, s.rooms.get? k = some { room with roomconf := conf }) →
      ∃ conf, (RoomService.creatRoom s roomconf).rooms.get? k =
        some { room with roomconf := conf } := by
    rintro s roomconf ⟨conf, hconf⟩
    unfold RoomService.creatRoom
    split
    · unfold updateRoom
      rw [setRoom_rooms, Table.get?_modify]
      by_cases hk : k = roomconf.roomid
      · rw [if_pos hk, hconf, Option.map_some]
        split
        · exact ⟨roomconf, rfl⟩
        · exact ⟨conf, rfl⟩
      · rw [if_neg hk]
        exact ⟨conf, hconf⟩
    · rename_i hnew
      refine ⟨conf, (Table.get?_set_ne _ _ ?_).trans hconf⟩
      rintro rfl
      exact hnew (Table.mem_of_get? hconf)
  have hrow : ∀ (s : State) (roomconf : RoomConf),
      (RoomService.initRow s roomconf).rooms = (RoomService.creatRoom s roomconf).rooms := by
    intro s roomconf
    unfold RoomService.initRow
    split
    · rfl
    · rfl
  have hrows : ∀ (rows : List RoomConf) (s : State),
      (∃ conf, s.rooms.get? k = some { room with roomconf := conf }) →
      ∃ conf, (rows.foldl RoomService.initRow s).rooms.get? k =
        some { room with roomconf := conf } := by
    intro rows
    induction rows with
    | nil =>
      intro s hs
      exact hs
    | cons roomconf rest ih =>
      intro s hs
      refine ih _ ?_
      rw [hrow]
      exact hcreat s roomconf hs
  unfold RoomService.initRoom
  split
  · exact hrows result _ ⟨room.roomconf, h⟩
  · exact ⟨room.roomconf, h⟩

/-- Other traversal orders keep a room up to the order of its users and seats. -/
theorem Rehash.keeps {s t : State} (h : Rehash s t) {k : RoomId} {room : Room}
    (hroom : s.rooms.get? k = some room) :
    ∃ room', t.rooms.get? k = some room' ∧ SameRoom room room' := by
  have hmem : k ∈ t.rooms := h.1.1.mem_iff.mp (Table.mem_of_get? hroom)
  obtain ⟨room', hroom'⟩ := Table.mem_iff_get?.mp hmem
  exact ⟨room', hroom', h.1.2 k room room' hroom hroom'⟩

theorem Each.rehash {s t : State} (hsame : ∀ k a b, SameRoom a b → Q k a → Q k b) (h : Each Q s)
    (hst : Rehash s t) : Each Q t := by
  intro k b hb
  have hmem : k ∈ s.rooms := hst.1.1.mem_iff.mpr (Table.mem_of_get? hb)
  obtain ⟨a, ha⟩ := Table.mem_iff_get?.mp hmem
  exact hsame k a b (hst.1.2 k a b ha hb) (h k a ha)

/-- A fact about each room that new configurations, traversal orders and the
changes of the commands keep holds in every reachable state. -/
theorem Each.reachable (hQ : ConfFree Q) (hsame : ∀ k a b, SameRoom a b → Q k a → Q k b)
    (hcommand : ∀ s c, system.Reachable s → Each Q s →
      Each Q (Handler.left (command s c))) : system.Invariant (Each Q) := by
  refine TSys.Inductive.invariant ⟨?_, ?_⟩
  · rintro _ ⟨result, rfl⟩
    exact Each.initRoom hQ (fun k room h => by simp [State.fresh] at h) result
  · intro s e t hs h hstep
    cases e with
    | command c =>
      obtain rfl : t = Handler.left (command s c) := hstep
      exact hcommand s c hs h
    | updateRoomconf result =>
      obtain rfl : t = RoomService.initRoom s result := hstep
      exact h.initRoom hQ result
    | rehash => exact h.rehash hsame hstep

theorem Change.roomid {c : Command} {room room' : Room} (h : Change c room room') :
    room'.roomid = room.roomid := by
  cases h with
  | taken h => unfold takeSeat; rw [if_neg h]; rfl
  | _ => rfl

/-- Rooms stay filed under their ids. -/
theorem reachable_keyed : system.Invariant Keyed := by
  refine Each.reachable (Q := fun k room => room.roomid = k) ⟨fun _ => rfl, fun _ _ h => h⟩ ?_ ?_
  · rintro k a b ⟨_, _, _, _, rfl⟩ h
    exact h
  · intro s c _ h
    rcases command_acts h c with hsame | ⟨k, room, room', _, hroom, hchange, ht⟩
    · rw [hsame]
      exact h
    · rw [ht]
      exact Each.setRoom h (hchange.roomid.trans (h k room hroom))

end RoomService

end DnServer.Bullfight
