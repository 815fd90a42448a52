import DnServer.Bullfight.Room.Seats

/-!
# The room service: refused commands

A command that is answered with an error code should leave the rooms as they
were. Two do not always: an enter lets the player in, or renews the record,
before it looks at the losses of the day, and a seated player's request for
another seat is refused after the own one is cleared. `Harmless` is exactly when
neither happens.

* `atomic_iff_harmless`: by the command. Three of them answer an error before they
  write; of the others it is known which branch raises the error behind a write
  (`enter_atomic_iff`, `sit_atomic_iff`).
-/

namespace DnServer.Bullfight

open DnServer.Lib

namespace RoomService

/-- Neither of the two codes of success. -/
def IsError (ret : ℤ) : Prop := ret ≠ 0 ∧ ret ≠ -1

/-- What commands change of a room. -/
def Room.tables (room : Room) : Table Uid User × Table ℤ Seat × ℤ × ℤ :=
  (room.users, room.seats, room.curusern, room.cursitn)

/-- The tables and counters of every room are the same. -/
def SameTables (s t : State) : Prop :=
  ∀ k, (t.rooms.get? k).map Room.tables = (s.rooms.get? k).map Room.tables

/-- If the command is answered with an error, nothing has changed. -/
def Atomic (s : State) (c : Command) : Prop :=
  ∀ t reply, command s c = .ok (t, reply) → IsError reply.ret → SameTables s t

/-- The losses of the day forbid the room. -/
def OverLimit (uid : Uid) (roomid : RoomId) (uplose : Uplose) (sumlose : ℚ)
    (roomtype_li : Option ℤ) : Prop :=
  ∃ mine, uplose.get? uid = some mine ∧
    ((mine.get? roomid = none ∧ sumlose ≤ serverconf.uplosemoneySum) ∨
      ∃ lose limit, mine.get? roomid = some lose ∧
        roomtype_li.bind serverconf.uplosemoney = some limit ∧
        (lose ≤ limit ∨ sumlose ≤ serverconf.uplosemoneySum))

/-- An enter over the limits finds the room full, or the player in it with the
same record; a seated player asks for the own seat. -/
def Harmless (s : State) : Command → Prop
  | .enter address uid roomid info uplose sumlose roomtype_li =>
    ∀ room, s.rooms.get? roomid = some room → room.roomconf.state = 0 →
      OverLimit uid roomid uplose sumlose roomtype_li →
      match room.users.get? uid with
      | some user => user.address = address ∧ user.info = info
      | none => room.roomconf.maxuser ≤ room.curusern
  | .sit uid roomid seatid _ =>
    ∀ room own seat, s.rooms.get? roomid = some room → seatIn room.users uid = some own →
      room.seats.get? seatid = some seat → seat.uid = some uid
  | _ => True

theorem SameTables.refl (s : State) : SameTables s s := fun _ => rfl

theorem sameTables_setRoom {s : State} {k : RoomId} {room : Room}
    (h : s.rooms.get? k = some room) (f : Room → Room) :
    SameTables s (s.setRoom k f) ↔ (f room).tables = room.tables := by
  constructor
  · intro hsame
    have := hsame k
    rw [setRoom_rooms, Table.get?_modify_self, h] at this
    exact Option.some.inj this
  · intro hsame k'
    rw [setRoom_rooms, Table.get?_modify]
    by_cases hk : k' = k
    · rw [if_pos hk, hk, h]
      exact congrArg some hsame
    · rw [if_neg hk]

/-! ## Entering -/

/-- The limits turn a success into an error exactly when they forbid the room. -/
theorem enterLimit_isError {s : State} {uid : Uid} {roomid : RoomId} {uplose : Uplose}
    {sumlose : ℚ} {roomtype_li : Option ℤ} {ret code : ℤ} (hret : ¬ IsError ret)
    (h : enterLimit s uid roomid uplose sumlose roomtype_li ret = .ok code) :
    IsError code ↔ OverLimit uid roomid uplose sumlose roomtype_li := by
  have hsum : IsError errorcode.OVER_SUMLOSE_LIMIT := ⟨by decide, by decide⟩
  have hover : IsError errorcode.OVER_LOSE_LIMIT := ⟨by decide, by decide⟩
  unfold enterLimit at h
  cases hmine : uplose.get? uid with
  | none =>
    rw [hmine] at h
    cases h
  | some mine =>
    simp only [hmine, Handler.index_some, Handler.ok_bind] at h
    -- the code before the room's own limit
    have hfirst : IsError (if sumlose ≤ serverconf.uplosemoneySum then
        errorcode.OVER_SUMLOSE_LIMIT else ret) ↔ sumlose ≤ serverconf.uplosemoneySum := by
      by_cases hs : sumlose ≤ serverconf.uplosemoneySum
      · rw [if_pos hs]
        exact iff_of_true hsum hs
      · rw [if_neg hs]
        exact iff_of_false hret hs
    cases hlose : mine.get? roomid with
    | none =>
      simp only [hlose] at h
      obtain rfl := Except.ok.inj h
      rw [hfirst]
      constructor
      · intro hs
        exact ⟨mine, hmine, .inl ⟨hlose, hs⟩⟩
      · rintro ⟨mine', hmine', ⟨_, hs⟩ | ⟨lose, _, hlose', _⟩⟩
        · exact hs
        · obtain rfl := Option.some.inj (hmine.symm.trans hmine')
          rw [hlose] at hlose'
          cases hlose'
    | some lose =>
      simp only [hlose] at h
      cases hlimit : roomtype_li.bind serverconf.uplosemoney with
      | none =>
        rw [hlimit] at h
        cases h
      | some limit =>
        simp only [hlimit, Handler.index_some, Handler.ok_bind] at h
        have hiff : OverLimit uid roomid uplose sumlose roomtype_li ↔
            lose ≤ limit ∨ sumlose ≤ serverconf.uplosemoneySum := by
          constructor
          · rintro ⟨mine', hmine', ⟨hnone, _⟩ | ⟨lose', limit', hlose', hlimit', hboth⟩⟩
            · obtain rfl := Option.some.inj (hmine.symm.trans hmine')
              rw [hlose] at hnone
              cases hnone
            · obtain rfl := Option.some.inj (hmine.symm.trans hmine')
              obtain rfl := Option.some.inj (hlose.symm.trans hlose')
              obtain rfl := Option.some.inj (hlimit.symm.trans hlimit')
              exact hboth
          · intro hboth
            exact ⟨mine, hmine, .inr ⟨lose, limit, hlose, hlimit, hboth⟩⟩
        rw [hiff]
        split at h
        · rename_i hle
          obtain rfl := Except.ok.inj h
          exact iff_of_true hover (.inl hle)
        · rename_i hle
          obtain rfl := Except.ok.inj h
          rw [hfirst, or_iff_right hle]

/-- Where the limits forbid the room the check does not raise. -/
theorem OverLimit.ok {uid : Uid} {roomid : RoomId} {uplose : Uplose} {sumlose : ℚ}
    {roomtype_li : Option ℤ} (h : OverLimit uid roomid uplose sumlose roomtype_li) (s : State)
    (ret : ℤ) : ∃ code, enterLimit s uid roomid uplose sumlose roomtype_li ret = .ok code := by
  obtain ⟨mine, hmine, ⟨hnone, _⟩ | ⟨lose, limit, hlose, hlimit, _⟩⟩ := h
  · unfold enterLimit
    simp only [hmine, hnone, Handler.index_some, Handler.ok_bind]
    exact ⟨_, rfl⟩
  · unfold enterLimit
    simp only [hmine, hlose, hlimit, Handler.index_some, Handler.ok_bind]
    split
    · exact ⟨_, rfl⟩
    · exact ⟨_, rfl⟩

theorem modify_eq_self_iff {users : Table Uid User} {uid : Uid} {user : User}
    (h : users.get? uid = some user) (f : User → User) :
    users.modify uid f = users ↔ f user = user := by
  constructor
  · intro hsame
    have hget : (users.modify uid f).get? uid = some (f user) := by
      rw [Table.get?_modify_self, h]
      rfl
    rw [hsame, h] at hget
    exact (Option.some.inj hget).symm
  · intro hsame
    refine Table.mapVal_eq_self fun k v hv => ?_
    by_cases hk : k = uid
    · subst hk
      rw [if_pos rfl]
      obtain rfl := Option.some.inj (h.symm.trans hv)
      exact hsame
    · rw [if_neg hk]

/-- What entering changes of the room. -/
theorem enterRoom_tables (room : Room) (address : Address) (uid : Uid) (info : String) :
    (enterRoom room address uid info).1.tables = room.tables ↔
      match room.users.get? uid with
      | some user => user.address = address ∧ user.info = info
      | none => room.roomconf.maxuser ≤ room.curusern := by
  unfold enterRoom
  cases huser : room.users.get? uid with
  | some user =>
    rw [if_pos (Table.mem_of_get? huser)]
    have hiff := modify_eq_self_iff huser
      fun user => { user with address := address, info := info }
    constructor
    · intro h
      have := hiff.mp (congrArg Prod.fst h)
      rw [← this]
      exact ⟨rfl, rfl⟩
    · rintro ⟨rfl, rfl⟩
      exact congrArg (fun users => (users, room.seats, room.curusern, room.cursitn))
        (hiff.mpr rfl)
  | none =>
    have hnew : uid ∉ room.users := Table.get?_eq_none.mp huser
    rw [if_neg hnew]
    dsimp only
    split
    · rename_i hfull
      exact iff_of_true rfl hfull
    · rename_i hfull
      refine iff_of_false (fun h => ?_) hfull
      have hcur : room.curusern + 1 = room.curusern := congrArg (·.2.2.1) h
      omega

/-- The code of entering is an error only in a full room, which stays as it is. -/
theorem enterRoom_isError {room : Room} {address : Address} {uid : Uid} {info : String}
    (h : IsError (enterRoom room address uid info).2) :
    (enterRoom room address uid info).1 = room := by
  unfold enterRoom at h ⊢
  split
  · rename_i hmem
    rw [if_pos hmem] at h
    exact absurd rfl h.2
  · rename_i hmem
    rw [if_neg hmem] at h
    split
    · rfl
    · rename_i hfull
      rw [if_neg hfull] at h
      exact absurd rfl h.1

/-- With the room known, `Harmless` speaks of that room. -/
theorem harmless_enter {s : State} {address : Address} {uid : Uid} {roomid : RoomId}
    {info : String} {uplose : Uplose} {sumlose : ℚ} {roomtype_li : Option ℤ} {room : Room}
    (hroom : s.rooms.get? roomid = some room) (hopen : room.roomconf.state = 0) :
    Harmless s (.enter address uid roomid info uplose sumlose roomtype_li) ↔
      (OverLimit uid roomid uplose sumlose roomtype_li →
        (enterRoom room address uid info).1.tables = room.tables) := by
  constructor
  · intro h hover
    exact (enterRoom_tables room address uid info).mpr (h room hroom hopen hover)
  · intro h room' hroom' _ hover
    obtain rfl := Option.some.inj (hroom.symm.trans hroom')
    exact (enterRoom_tables room address uid info).mp (h hover)

theorem enter_atomic_iff (s : State) (address : Address) (uid : Uid) (roomid : RoomId)
    (info : String) (uplose : Uplose) (sumlose : ℚ) (roomtype_li : Option ℤ) :
    Atomic s (.enter address uid roomid info uplose sumlose roomtype_li) ↔
      Harmless s (.enter address uid roomid info uplose sumlose roomtype_li) := by
  have hcase := checkEnter_cases s address uid roomid info uplose sumlose roomtype_li
  show (∀ t reply, checkEnter s address uid roomid info uplose sumlose roomtype_li =
    .ok (t, reply) → IsError reply.ret → SameTables s t) ↔ _
  generalize checkEnter s address uid roomid info uplose sumlose roomtype_li = r at hcase ⊢
  cases hcase with
  | noRoom h =>
    refine iff_of_true ?_ fun room hroom hopen => absurd hopen (h room hroom)
    rintro t reply ⟨⟩ _
    exact .refl _
  | raised hroom hopen h =>
    refine iff_of_true (fun t reply h => by cases h) ((harmless_enter hroom hopen).mpr ?_)
    intro hover
    obtain ⟨code, hok⟩ := hover.ok (s.setRoom roomid fun _ => (enterRoom _ address uid info).1)
      (enterRoom _ address uid info).2
    rw [h] at hok
    cases hok
  | @answered room ret hroom hopen h =>
    rw [harmless_enter hroom hopen]
    have hsame := sameTables_setRoom hroom fun _ => (enterRoom room address uid info).1
    by_cases herr : IsError (enterRoom room address uid info).2
    · -- the room is full
      have hfull := congrArg Room.tables (enterRoom_isError herr)
      refine iff_of_true ?_ fun _ => hfull
      rintro t reply ⟨⟩ _
      exact hsame.mpr hfull
    · have hcode := enterLimit_isError herr h
      constructor
      · intro hatomic hover
        exact hsame.mp (hatomic _ _ rfl (hcode.mpr hover))
      · rintro hharmless t reply ⟨⟩ hret
        exact hsame.mpr (hharmless (hcode.mp hret))

/-! ## Sitting down -/

theorem sit_atomic_iff (s : State) (uid : Uid) (roomid : RoomId) (seatid : ℤ)
    (IP : Option String) :
    Atomic s (.sit uid roomid seatid IP) ↔ Harmless s (.sit uid roomid seatid IP) := by
  have hcase := checkSit_cases s uid roomid seatid IP
  show (∀ t reply, checkSit s uid roomid seatid IP = .ok (t, reply) → IsError reply.ret →
    SameTables s t) ↔ _
  generalize checkSit s uid roomid seatid IP = r at hcase ⊢
  cases hcase with
  | noRoom hroom =>
    refine iff_of_true (fun t reply h => by cases h) fun room own seat hroom' _ _ => ?_
    rw [hroom] at hroom'
    cases hroom'
  | stranger hroom huser =>
    refine iff_of_true ?_ fun room own seat hroom' hown _ => ?_
    · rintro t reply ⟨⟩ _
      exact .refl _
    · obtain rfl := Option.some.inj (hroom.symm.trans hroom')
      rw [seatIn_of_not_mem (Table.get?_eq_none.mp huser)] at hown
      cases hown
  | seatedNoSeat hroom _ _ hseat =>
    refine iff_of_true (fun t reply h => by cases h) fun room own seat hroom' _ hseat' => ?_
    obtain rfl := Option.some.inj (hroom.symm.trans hroom')
    rw [hseat] at hseat'
    cases hseat'
  | own hroom _ _ hseat huid =>
    refine iff_of_true ?_ fun room own seat hroom' _ hseat' => ?_
    · rintro t reply ⟨⟩ hret
      exact absurd rfl hret.1
    · obtain rfl := Option.some.inj (hroom.symm.trans hroom')
      obtain rfl := Option.some.inj (hseat.symm.trans hseat')
      exact huid
  | @drop room user own seat hroom huser hown hseat huid =>
    refine iff_of_false (fun h => ?_) fun h => ?_
    · have hsame := (sameTables_setRoom hroom _).mp
        (h _ _ rfl ⟨by decide, by decide⟩)
      have husers : (room.users.modify uid fun user => { user with seatid := none }) =
          room.users := congrArg Prod.fst hsame
      rw [← (modify_eq_self_iff huser _).mp husers] at hown
      cases hown
    · exact huid (h room own seat hroom ((seatIn_of_get? huser).trans hown) hseat)
  | noSeat hroom huser hown hseat =>
    refine iff_of_true ?_ fun room own seat hroom' hown' _ => ?_
    · rintro t reply ⟨⟩ _
      exact .refl _
    · obtain rfl := Option.some.inj (hroom.symm.trans hroom')
      exact absurd hown' (seatIn_ne huser hown _)
  | sits hroom huser hown _ _ =>
    refine iff_of_true ?_ fun room own seat hroom' hown' _ => ?_
    · rintro t reply ⟨⟩ hret
      exact absurd rfl hret.1
    · obtain rfl := Option.some.inj (hroom.symm.trans hroom')
      exact absurd hown' (seatIn_ne huser hown _)
  | occupied hroom huser hown _ _ =>
    refine iff_of_true ?_ fun room own seat hroom' hown' _ => ?_
    · rintro t reply ⟨⟩ _
      exact .refl _
    · obtain rfl := Option.some.inj (hroom.symm.trans hroom')
      exact absurd hown' (seatIn_ne huser hown _)

/-! ## Every command -/

/-- Standing up, leaving and a fast enter change nothing when they are refused. -/
theorem atomic_stand (s : State) (uid : Uid) (roomid : RoomId) (seatid : ℤ) :
    Atomic s (.stand uid roomid seatid) := by
  have hcase := checkStand_cases s uid roomid seatid
  intro t reply h hret
  have h : checkStand s uid roomid seatid = .ok (t, reply) := h
  rw [h] at hcase
  cases hcase with
  | stranger => exact .refl _
  | standing => exact .refl _
  | free => exact .refl _
  | stands => exact absurd rfl hret.1

theorem atomic_quit (s : State) (uid : Uid) (roomid : RoomId) : Atomic s (.quit uid roomid) := by
  have hcase := checkQuitRoom_cases s uid roomid
  intro t reply h hret
  have h : checkQuitRoom s uid roomid = .ok (t, reply) := h
  rw [h] at hcase
  cases hcase with
  | stranger => exact .refl _
  | standing => exact absurd rfl hret.1
  | free => exact absurd rfl hret.1
  | stands => exact absurd rfl hret.1

theorem atomic_fastEnter (s : State) (address : Address) (enterconf : EnterConf)
    (uplose : Uplose) (sumlose : ℚ) : Atomic s (.fastEnter address enterconf uplose sumlose) := by
  have hcase := fastEnterRoom_cases s address enterconf uplose sumlose
  intro t reply h hret
  have h : fastEnterRoom s address enterconf uplose sumlose = .ok (t, reply) := h
  rw [h] at hcase
  cases hcase with
  | refused => exact .refl _
  | granted => exact absurd rfl hret.1

/-- In every state of the rooms a command that is answered with an error leaves
them as they were exactly when it is harmless. -/
theorem atomic_iff_harmless (s : State) (c : Command) : Atomic s c ↔ Harmless s c := by
  cases c with
  | enter => exact enter_atomic_iff _ _ _ _ _ _ _ _
  | sit => exact sit_atomic_iff _ _ _ _ _
  | stand => exact iff_of_true (atomic_stand _ _ _ _) trivial
  | quit => exact iff_of_true (atomic_quit _ _ _) trivial
  | fastEnter => exact iff_of_true (atomic_fastEnter _ _ _ _ _) trivial

/-- A player who has lost all a day allows is refused, and is among the users. -/
theorem refused_enter_admits :
    ¬ Atomic oneRoom (.enter 107 7 1 "" ((Table.empty : Uplose).set 7 Table.empty)
      (-80000000) none) := by
  intro h
  have hharmless := (enter_atomic_iff _ _ _ _ _ _ _ _).mp h
  have hroom : oneRoom.rooms.get? 1 = some (newRoom (.twoSeats 1)) := by decide +kernel
  have hfull : (10 : ℤ) ≤ 0 := hharmless _ hroom rfl ⟨Table.empty, rfl, .inl ⟨rfl, le_refl _⟩⟩
  omega

end RoomService

end DnServer.Bullfight
