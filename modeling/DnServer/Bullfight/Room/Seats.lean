import DnServer.Lib.Mirror
import DnServer.Bullfight.Room.Spec

/-!
# The room service: users and seats agree

A room records who sits where twice, in `users` and in `seats`, and counts both.
Two commands change one record only: a seated player's request for another seat
clears `users[uid].seatid` and leaves the seat taken, and a seated player may
name another player's seat when standing up. As long as neither happens the
records agree, and a step of either kind always breaks them.

* `command_agree_iff`: each command changes both records alike, by its case in `Change`,
  unless it is one of the two.
* `agree_iff_proper`: from it by induction; `seat_leaked` is a player that asks for a
  second seat.
-/

namespace DnServer.Bullfight

open DnServer.Lib

namespace RoomService

/-! ## The two records -/

/-- `users[uid].seatid`. -/
def seatIn (users : Table Uid User) (uid : Uid) : Option ℤ := (users.get? uid).bind User.seatid

/-- `seats[seatid].uid`. -/
def holderIn (seats : Table ℤ Seat) (seatid : ℤ) : Option Uid := (seats.get? seatid).bind Seat.uid

/-- 1 for a seat someone is on. -/
def Seat.taken (seat : Seat) : ℤ := if seat.uid.isSome then 1 else 0

/-- The number of seats someone is on. -/
def takenIn (seats : Table ℤ Seat) : ℤ := seats.sum fun _ seat => seat.taken

/-- The counters count, and the two records are one relation. -/
structure Room.Agree (room : Room) : Prop where
  cursitn : room.cursitn = takenIn room.seats
  curusern : room.curusern = room.users.size
  mirror : Mirror (seatIn room.users) (holderIn room.seats)

/-- The records agree in every room. -/
def Agree (s : State) : Prop := Each (fun _ room => room.Agree) s

section Records

variable {users : Table Uid User} {seats : Table ℤ Seat} {uid u : Uid} {n m : ℤ}

theorem seatIn_of_get? {user : User} (h : users.get? uid = some user) :
    seatIn users uid = user.seatid := by
  unfold seatIn
  rw [h]
  rfl

theorem seatIn_of_not_mem (h : uid ∉ users) : seatIn users uid = none := by
  unfold seatIn
  rw [Table.get?_eq_none.mpr h]
  rfl

@[simp] theorem seatIn_set_self (user : User) : seatIn (users.set uid user) uid = user.seatid :=
  seatIn_of_get? (Table.get?_set_self _ _ _)

theorem seatIn_set_ne (user : User) (h : u ≠ uid) :
    seatIn (users.set uid user) u = seatIn users u := by
  unfold seatIn
  rw [Table.get?_set_ne _ _ h]

theorem seatIn_modify_self {user : User} (h : users.get? uid = some user) (f : User → User) :
    seatIn (users.modify uid f) uid = (f user).seatid :=
  seatIn_of_get? (by rw [Table.get?_modify_self, h]; rfl)

theorem seatIn_modify_ne (f : User → User) (h : u ≠ uid) :
    seatIn (users.modify uid f) u = seatIn users u := by
  unfold seatIn
  rw [Table.get?_modify_ne _ _ h]

@[simp] theorem seatIn_erase_self : seatIn (users.erase uid) uid = none := by
  unfold seatIn
  rw [Table.get?_erase_self]
  rfl

theorem seatIn_erase_ne (h : u ≠ uid) : seatIn (users.erase uid) u = seatIn users u := by
  unfold seatIn
  rw [Table.get?_erase_ne _ h]

theorem holderIn_of_get? {seat : Seat} (h : seats.get? n = some seat) :
    holderIn seats n = seat.uid := by
  unfold holderIn
  rw [h]
  rfl

theorem holderIn_modify_self {seat : Seat} (h : seats.get? n = some seat) (f : Seat → Seat) :
    holderIn (seats.modify n f) n = (f seat).uid :=
  holderIn_of_get? (by rw [Table.get?_modify_self, h]; rfl)

theorem holderIn_modify_ne (f : Seat → Seat) (h : m ≠ n) :
    holderIn (seats.modify n f) m = holderIn seats m := by
  unfold holderIn
  rw [Table.get?_modify_ne _ _ h]

/-- The number of taken seats after writing one seat. -/
theorem takenIn_modify {seat : Seat} (h : seats.get? n = some seat) (f : Seat → Seat) :
    takenIn (seats.modify n f) = takenIn seats + (f seat).taken - seat.taken := by
  have hsum := Table.sum_modify h f fun _ seat => Seat.taken seat
  unfold takenIn
  omega

/-- A free seat is taken: one more. -/
theorem takenIn_take {seat : Seat} (h : seats.get? n = some seat) (hfree : seat.uid = none)
    {f : Seat → Seat} (hf : (f seat).uid = some uid) :
    takenIn (seats.modify n f) = takenIn seats + 1 := by
  rw [takenIn_modify h]
  simp [Seat.taken, hfree, hf]

/-- A taken seat is left: one fewer. -/
theorem takenIn_free {seat : Seat} (h : seats.get? n = some seat) (hheld : seat.uid = some uid)
    {f : Seat → Seat} (hf : (f seat).uid = none) :
    takenIn (seats.modify n f) = takenIn seats - 1 := by
  rw [takenIn_modify h]
  simp [Seat.taken, hheld, hf]

end Records

/-! ## The changes that keep the records -/

section Keep

variable {room : Room} {uid : Uid} {user : User} {seatid : ℤ} {seat : Seat}

/-- Renewing a record leaves the seat in it. -/
theorem Room.Agree.renewed (h : room.Agree) (uid : Uid) (address : Address) (info : String) :
    (room.setUser uid fun user => { user with address := address, info := info }).Agree := by
  have hseatIn : ∀ u, seatIn (room.users.modify uid fun user =>
      { user with address := address, info := info }) u = seatIn room.users u := by
    intro u
    unfold seatIn
    rw [Table.get?_modify]
    by_cases hu : u = uid
    · rw [if_pos hu, Option.bind_map]
      rfl
    · rw [if_neg hu]
  refine ⟨h.cursitn, h.curusern.trans ?_, ?_⟩
  · rw [Room.setUser, Table.size_modify]
  · intro u n
    exact (Eq.congr_left (hseatIn u)).trans (h.mirror u n)

theorem size_set_new {users : Table Uid User} (h : uid ∉ users) (user : User) :
    ((users.set uid user).size : ℤ) = users.size + 1 := by
  rw [Table.size_set, if_neg h]
  push_cast
  rfl

theorem Room.Agree.entered (h : room.Agree) (hnew : uid ∉ room.users) (address : Address)
    (info : String) :
    Room.Agree { room with
      users := room.users.set uid ⟨address, uid, none, info⟩
      curusern := room.curusern + 1 } := by
  refine ⟨h.cursitn, ?_, ?_⟩
  · show room.curusern + 1 = _
    rw [h.curusern, size_set_new hnew]
  · intro u n
    have hseatIn : seatIn (room.users.set uid ⟨address, uid, none, info⟩) u =
        seatIn room.users u := by
      by_cases hu : u = uid
      · rw [hu, seatIn_set_self, seatIn_of_not_mem hnew]
      · exact seatIn_set_ne _ hu
    exact (Eq.congr_left hseatIn).trans (h.mirror u n)

theorem Room.Agree.taken (h : room.Agree) {enterconf : EnterConf}
    (hnew : enterconf.uid ∉ room.users) (hseat : room.seats.get? seatid = some seat)
    (hfree : seat.uid = none) (address : Address) :
    (takeSeat room enterconf address seatid).Agree := by
  unfold takeSeat
  rw [if_neg hnew]
  refine ⟨?_, ?_, ?_⟩
  · show room.cursitn + 1 = takenIn (room.seats.modify seatid _)
    rw [takenIn_take hseat hfree rfl, h.cursitn]
  · show room.curusern + 1 = _
    rw [h.curusern, size_set_new hnew]
  · exact h.mirror.link (seatIn_of_not_mem hnew) ((holderIn_of_get? hseat).trans hfree)
      (seatIn_set_self _) (fun u hu => seatIn_set_ne _ hu)
      (holderIn_modify_self hseat _) (fun n hn => holderIn_modify_ne _ hn)

theorem Room.Agree.sat (h : room.Agree) (huser : room.users.get? uid = some user)
    (hown : user.seatid = none) (hseat : room.seats.get? seatid = some seat)
    (hfree : seat.uid = none) (IP : Option String) : (sitDown room uid seatid IP).Agree := by
  refine ⟨?_, ?_, ?_⟩
  · show room.cursitn + 1 = takenIn (room.seats.modify seatid _)
    rw [takenIn_take hseat hfree rfl, h.cursitn]
  · show room.curusern = ((room.users.modify uid _).size : ℤ)
    rw [Table.size_modify]
    exact h.curusern
  · exact h.mirror.link ((seatIn_of_get? huser).trans hown) ((holderIn_of_get? hseat).trans hfree)
      (seatIn_modify_self huser _) (fun u hu => seatIn_modify_ne _ hu)
      (holderIn_modify_self hseat _) (fun n hn => holderIn_modify_ne _ hn)

/-- Standing up from one's own seat. -/
theorem Room.Agree.stood (h : room.Agree) (huser : room.users.get? uid = some user)
    (hown : user.seatid = some seatid) (hseat : room.seats.get? seatid = some seat) :
    (standUp room uid seatid).Agree := by
  have hseatIn : seatIn room.users uid = some seatid := (seatIn_of_get? huser).trans hown
  have hheld : seat.uid = some uid :=
    (holderIn_of_get? hseat).symm.trans ((h.mirror uid seatid).mp hseatIn)
  refine ⟨?_, ?_, ?_⟩
  · show room.cursitn - 1 = takenIn (room.seats.modify seatid _)
    rw [takenIn_free hseat hheld rfl, h.cursitn]
  · show room.curusern = ((room.users.modify uid _).size : ℤ)
    rw [Table.size_modify]
    exact h.curusern
  · exact h.mirror.unlink hseatIn
      (seatIn_modify_self huser _) (fun u hu => seatIn_modify_ne _ hu)
      (holderIn_modify_self hseat _) (fun n hn => holderIn_modify_ne _ hn)

/-- Leaving without a seat. -/
theorem Room.Agree.left (h : room.Agree) (huser : uid ∈ room.users)
    (hown : seatIn room.users uid = none) : (leave room uid).Agree := by
  refine ⟨h.cursitn, ?_, ?_⟩
  · show room.curusern - 1 = ((room.users.erase uid).size : ℤ)
    have hsize := Table.size_erase_of_mem huser
    have hcount := h.curusern
    omega
  · intro u n
    have hseatIn : seatIn (room.users.erase uid) u = seatIn room.users u := by
      by_cases hu : u = uid
      · rw [hu, seatIn_erase_self, hown]
      · exact seatIn_erase_ne hu
    exact (Eq.congr_left hseatIn).trans (h.mirror u n)

/-- A seated player who asks for another seat loses the seat in `users` only. -/
theorem Room.Agree.not_dropped (h : room.Agree) (huser : room.users.get? uid = some user)
    (hown : user.seatid = some seatid) :
    ¬ (room.setUser uid fun user => { user with seatid := none }).Agree := by
  intro h'
  exact h.mirror.not_of_half ((seatIn_of_get? huser).trans hown) (seatIn_modify_self huser _) rfl
    h'.mirror

/-- A seated player who stands up from another's seat leaves the own one taken. -/
theorem Room.Agree.not_stood (h : room.Agree) (huser : room.users.get? uid = some user) {own : ℤ}
    (hown : user.seatid = some own) (hne : own ≠ seatid) : ¬ (standUp room uid seatid).Agree := by
  intro h'
  exact h.mirror.not_of_half ((seatIn_of_get? huser).trans hown) (seatIn_modify_self huser _)
    (holderIn_modify_ne _ hne) h'.mirror

end Keep

/-! ## When a step keeps the records -/

/-- A seated player asks for no seat but the own one (or one the room does not
have), and stands up from no seat but the own one (or a free one). -/
def Proper (s : State) : Event → Prop
  | .command (.sit uid roomid seatid _) => ∀ room own, s.rooms.get? roomid = some room →
      seatIn room.users uid = some own → seatid = own ∨ seatid ∉ room.seats
  | .command (.stand uid roomid seatid) => ∀ room own, s.rooms.get? roomid = some room →
      seatIn room.users uid = some own → seatid = own ∨ holderIn room.seats seatid = none
  | _ => True

/-- One change in one room, seen from all rooms. -/
theorem Agree.setRoom_iff {s : State} (h : Agree s) {k : RoomId} {room : Room}
    (hroom : s.rooms.get? k = some room) (f : Room → Room) :
    Agree (s.setRoom k f) ↔ (f room).Agree := by
  constructor
  · intro h'
    refine h' k (f room) ?_
    rw [setRoom_rooms, Table.get?_modify_self, hroom]
    rfl
  · intro h'
    rw [setRoom_eq hroom]
    exact Each.setRoom h h'

/-- A user whose record names no seat has none. -/
theorem seatIn_ne {users : Table Uid User} {uid : Uid} {user : User}
    (huser : users.get? uid = some user) (hown : user.seatid = none) (own : ℤ) :
    seatIn users uid ≠ some own := by
  rw [seatIn_of_get? huser, hown]
  nofun

theorem sit_agree_iff {s : State} (h : Agree s) (uid : Uid) (roomid : RoomId) (seatid : ℤ)
    (IP : Option String) :
    Agree (Handler.left (checkSit s uid roomid seatid IP)) ↔
      Proper s (.command (.sit uid roomid seatid IP)) := by
  -- what `Proper` says once the room is known
  have hproper : ∀ room, s.rooms.get? roomid = some room →
      (Proper s (.command (.sit uid roomid seatid IP)) ↔
        ∀ own, seatIn room.users uid = some own → seatid = own ∨ seatid ∉ room.seats) := by
    intro room hroom
    constructor
    · intro hp own hown
      exact hp room own hroom hown
    · intro hp room' own hroom' hown
      obtain rfl := Option.some.inj (hroom.symm.trans hroom')
      exact hp own hown
  have hcase := checkSit_cases s uid roomid seatid IP
  generalize checkSit s uid roomid seatid IP = r at hcase ⊢
  cases hcase with
  | noRoom hroom =>
    refine iff_of_true h fun room own hroom' _ => ?_
    rw [hroom] at hroom'
    cases hroom'
  | stranger hroom huser =>
    refine iff_of_true h ((hproper _ hroom).mpr fun own hown => ?_)
    rw [seatIn_of_not_mem (Table.get?_eq_none.mp huser)] at hown
    cases hown
  | seatedNoSeat hroom _ _ hseat =>
    exact iff_of_true h ((hproper _ hroom).mpr fun _ _ => .inr (Table.get?_eq_none.mp hseat))
  | own hroom huser hown hseat huid =>
    refine iff_of_true h ((hproper _ hroom).mpr fun own' hown' => .inl ?_)
    have hmine := ((h _ _ hroom).mirror uid seatid).mpr ((holderIn_of_get? hseat).trans huid)
    rw [hmine] at hown'
    exact Option.some.inj hown'
  | drop hroom huser hown hseat huid =>
    refine iff_of_false ?_ fun hp => ?_
    · exact fun h' => (h _ _ hroom).not_dropped huser hown ((h.setRoom_iff hroom _).mp h')
    · have hown := (seatIn_of_get? huser).trans hown
      rcases (hproper _ hroom).mp hp _ hown with rfl | hno
      · exact huid ((holderIn_of_get? hseat).symm.trans (((h _ _ hroom).mirror uid seatid).mp hown))
      · exact hno (Table.mem_of_get? hseat)
  | noSeat hroom huser hown _ =>
    exact iff_of_true h ((hproper _ hroom).mpr fun own h' => absurd h' (seatIn_ne huser hown own))
  | sits hroom huser hown hseat hfree =>
    exact iff_of_true ((h.setRoom_iff hroom _).mpr ((h _ _ hroom).sat huser hown hseat hfree IP))
      ((hproper _ hroom).mpr fun own h' => absurd h' (seatIn_ne huser hown own))
  | occupied hroom huser hown _ _ =>
    exact iff_of_true h ((hproper _ hroom).mpr fun own h' => absurd h' (seatIn_ne huser hown own))

theorem stand_agree_iff {s : State} (h : Agree s) (uid : Uid) (roomid : RoomId) (seatid : ℤ) :
    Agree (Handler.left (checkStand s uid roomid seatid)) ↔
      Proper s (.command (.stand uid roomid seatid)) := by
  have hproper : ∀ room, s.rooms.get? roomid = some room →
      (Proper s (.command (.stand uid roomid seatid)) ↔
        ∀ own, seatIn room.users uid = some own →
          seatid = own ∨ holderIn room.seats seatid = none) := by
    intro room hroom
    constructor
    · intro hp own hown
      exact hp room own hroom hown
    · intro hp room' own hroom' hown
      obtain rfl := Option.some.inj (hroom.symm.trans hroom')
      exact hp own hown
  have hcase := checkStand_cases s uid roomid seatid
  generalize checkStand s uid roomid seatid = r at hcase ⊢
  cases hcase with
  | noRoom hroom =>
    refine iff_of_true h fun room own hroom' _ => ?_
    rw [hroom] at hroom'
    cases hroom'
  | stranger hroom huser =>
    refine iff_of_true h ((hproper _ hroom).mpr fun own hown => ?_)
    rw [seatIn_of_not_mem (Table.get?_eq_none.mp huser)] at hown
    cases hown
  | standing hroom huser hown =>
    exact iff_of_true h ((hproper _ hroom).mpr fun own h' => absurd h' (seatIn_ne huser hown own))
  | noSeat hroom _ _ hseat =>
    refine iff_of_true h ((hproper _ hroom).mpr fun _ _ => .inr ?_)
    unfold holderIn
    rw [hseat]
    rfl
  | free hroom _ _ hseat hfree =>
    exact iff_of_true h ((hproper _ hroom).mpr fun _ _ => .inr ((holderIn_of_get? hseat).trans hfree))
  | @stands room user own seat holder hroom huser hown hseat hheld =>
    rw [hproper room hroom, Handler.left_ok, h.setRoom_iff hroom]
    by_cases hne : own = seatid
    · subst hne
      refine iff_of_true ((h _ _ hroom).stood huser hown hseat) fun own' hown' => .inl ?_
      rw [seatIn_of_get? huser, hown] at hown'
      exact Option.some.inj hown'
    · refine iff_of_false ((h _ _ hroom).not_stood huser hown hne) fun hp => ?_
      rcases hp own ((seatIn_of_get? huser).trans hown) with rfl | hno
      · exact hne rfl
      · rw [holderIn_of_get? hseat, hheld] at hno
        cases hno

/-- The other commands always keep the records. -/
theorem Change.agree {c : Command} {room room' : Room} (h : room.Agree) (hc : Change c room room')
    (hsit : ∀ uid roomid seatid IP, c ≠ .sit uid roomid seatid IP)
    (hstand : ∀ uid roomid seatid, c ≠ .stand uid roomid seatid) : room'.Agree := by
  cases hc with
  | renewed _ => exact h.renewed _ _ _
  | entered hnew => exact h.entered hnew _ _
  | renewedFast _ => exact h.renewed _ _ _
  | taken hnew _ hseat hfree => exact h.taken hnew hseat hfree _
  | dropped => exact absurd rfl (hsit _ _ _ _)
  | sat => exact absurd rfl (hsit _ _ _ _)
  | stood => exact absurd rfl (hstand _ _ _)
  | @quit uid _ _ user huser hfree =>
    refine h.left (Table.mem_of_get? huser) ?_
    -- a seat recorded for the player would be held by the player
    cases hown : user.seatid with
    | none => exact (seatIn_of_get? huser).trans hown
    | some own =>
      obtain ⟨seat, hseat, huid⟩ := hfree own hown
      have hheld := (h.mirror uid own).mp ((seatIn_of_get? huser).trans hown)
      rw [holderIn_of_get? hseat, huid] at hheld
      cases hheld
  | @quitSeat uid _ _ user own _ _ huser hown hseat _ =>
    refine (h.stood huser hown hseat).left ?_ (seatIn_modify_self huser _)
    exact Table.mem_modify.mpr (Table.mem_of_get? huser)

theorem Agree.of_acts {s t : State} {c : Command} (h : Agree s) (hacts : Acts s c t)
    (hsit : ∀ uid roomid seatid IP, c ≠ .sit uid roomid seatid IP)
    (hstand : ∀ uid roomid seatid, c ≠ .stand uid roomid seatid) : Agree t := by
  rcases hacts with rfl | ⟨k, room, room', _, hroom, hc, rfl⟩
  · exact h
  · exact Each.setRoom h (hc.agree (h k room hroom) hsit hstand)

theorem command_agree_iff {s : State} (hk : Keyed s) (h : Agree s) (c : Command) :
    Agree (Handler.left (command s c)) ↔ Proper s (.command c) := by
  cases c with
  | sit uid roomid seatid IP => exact sit_agree_iff h uid roomid seatid IP
  | stand uid roomid seatid => exact stand_agree_iff h uid roomid seatid
  | enter => exact iff_of_true (h.of_acts (command_acts hk _) (by simp) (by simp)) trivial
  | fastEnter => exact iff_of_true (h.of_acts (command_acts hk _) (by simp) (by simp)) trivial
  | quit => exact iff_of_true (h.of_acts (command_acts hk _) (by simp) (by simp)) trivial

/-! ## All runs -/

theorem newSeats_free : ∀ (n : ℕ) (m : ℤ) (seat : Seat),
    (newSeats n).get? m = some seat → seat.uid = none ∧ seat.IP = none := by
  intro n
  induction n with
  | zero =>
    intro m seat h
    cases h
  | succ n ih =>
    intro m seat h
    unfold newSeats at h
    rw [Table.get?_set] at h
    by_cases hm : m = n
    · rw [if_pos hm] at h
      obtain rfl := Option.some.inj h
      exact ⟨rfl, rfl⟩
    · rw [if_neg hm] at h
      exact ih m seat h

theorem newRoom_agree (roomconf : RoomConf) : (newRoom roomconf).Agree := by
  have hfree := newSeats_free roomconf.seatnum.toNat
  refine ⟨?_, rfl, fun u n => iff_of_false ?_ ?_⟩
  · show 0 = takenIn (newSeats roomconf.seatnum.toNat)
    unfold takenIn
    rw [← Table.sum_zero (newSeats roomconf.seatnum.toNat)]
    refine Table.sum_congr fun n seat h => ?_
    simp [Seat.taken, (hfree n seat h).1]
  · rintro ⟨⟩
  · intro h
    obtain ⟨seat, hseat, huid⟩ := Option.bind_eq_some_iff.mp h
    rw [(hfree n seat hseat).1] at huid
    cases huid

theorem SameRoom.agree {a b : Room} (hsame : SameRoom a b) (h : a.Agree) : b.Agree := by
  obtain ⟨seats, users, hseats, husers, rfl⟩ := hsame
  refine ⟨h.cursitn.trans (hseats.sum _), h.curusern.trans (congrArg _ husers.size), ?_⟩
  intro u n
  show (users.get? u).bind _ = some n ↔ (seats.get? n).bind _ = some u
  rw [← husers.get?, ← hseats.get?]
  exact h.mirror u n

theorem agree_confFree : ConfFree fun _ room => room.Agree where
  new := newRoom_agree
  conf _ _ h := ⟨h.cursitn, h.curusern, h.mirror⟩

/-- From records that agree, exactly the proper steps lead to records that agree. -/
theorem step_agree_iff {s t : State} {e : Event} (hs : system.Reachable s) (h : Agree s)
    (hstep : system.step s e t) : Agree t ↔ Proper s e := by
  cases e with
  | command c =>
    obtain rfl : t = Handler.left (command s c) := hstep
    exact command_agree_iff (reachable_keyed s hs) h c
  | updateRoomconf result =>
    obtain rfl : t = initRoom s result := hstep
    exact iff_of_true (Each.initRoom agree_confFree h result) trivial
  | rehash => exact iff_of_true (Each.rehash (fun _ _ _ => SameRoom.agree) h hstep) trivial

/-- In a run of proper steps the records agree. -/
theorem proper_agree : (system.restrict Proper).Invariant Agree := by
  refine TSys.Inductive.invariant ⟨?_, ?_⟩
  · rintro _ ⟨result, rfl⟩
    exact Each.initRoom agree_confFree (fun k room h => by simp [State.fresh] at h) result
  · rintro s e t hs h ⟨hproper, hstep⟩
    exact (step_agree_iff hs.of_restrict h hstep).mpr hproper

/-- The records agree in every state a run of proper steps reaches, and the next
step breaks them exactly when it is not proper. -/
theorem agree_iff_proper {s t : State} {e : Event} (hs : (system.restrict Proper).Reachable s)
    (hstep : system.step s e t) : Agree s ∧ (Agree t ↔ Proper s e) := by
  have h := proper_agree s hs
  exact ⟨h, step_agree_iff hs.of_restrict h hstep⟩

instance (s : State) (e : Event) : Decidable (Proper s e) :=
  match e with
  | .command (.sit uid roomid seatid _) =>
    decidable_of_iff (∀ room ∈ s.rooms.get? roomid, ∀ own ∈ seatIn room.users uid,
      seatid = own ∨ seatid ∉ room.seats)
      ⟨fun h room own hr ho => h room hr own ho, fun h room hr own ho => h room own hr ho⟩
  | .command (.stand uid roomid seatid) =>
    decidable_of_iff (∀ room ∈ s.rooms.get? roomid, ∀ own ∈ seatIn room.users uid,
      seatid = own ∨ holderIn room.seats seatid = none)
      ⟨fun h room own hr ho => h room hr own ho, fun h room hr own ho => h room own hr ho⟩
  | .command (.enter ..) => .isTrue trivial
  | .command (.fastEnter ..) => .isTrue trivial
  | .command (.quit ..) => .isTrue trivial
  | .updateRoomconf _ => .isTrue trivial
  | .rehash => .isTrue trivial

/-- Players 7 and 8 sit on the two seats of room 1. Player 7 may ask for the own seat again and
stand up from it, but must not ask for the seat of player 8. -/
theorem agree_iff_proper_seated : ∃ s, (system.restrict Proper).Reachable s ∧ Agree s ∧
    Agree (Handler.left (command s (.stand 7 1 0))) ∧
    ¬ Agree (Handler.left (command s (.sit 7 1 1 none))) := by
  obtain ⟨s, hs, hend⟩ := TSys.reachable_of_exec
    (TSys.restrictExec_step (C := Proper) exec_step) (s := oneRoom) ⟨_, rfl⟩
    (l := [.command (entering 7), .command (entering 8), .command (.sit 7 1 0 none),
      .command (.sit 8 1 1 none), .command (.sit 7 1 0 none)])
    (p := fun s => decide (Proper s (.command (.stand 7 1 0)) ∧
      ¬ Proper s (.command (.sit 7 1 1 none)))) (by decide +kernel)
  obtain ⟨hstand, hsit⟩ := of_decide_eq_true hend
  have hproper := agree_iff_proper (e := .command (.stand 7 1 0)) hs rfl
  have hother := agree_iff_proper (e := .command (.sit 7 1 1 none)) hs rfl
  exact ⟨s, hs, hproper.1, hproper.2.mpr hstand, fun h => hsit (hother.2.mp h)⟩

/-- A seated player asks for another seat: the seat stays taken in `seats`, and
`users` has the player on none. -/
theorem seat_leaked : ¬ system.Invariant Agree := by
  intro h
  obtain ⟨t, ht, hleak⟩ := TSys.reachable_of_exec exec_step (s := oneRoom) ⟨_, rfl⟩
    (l := [.command (entering 7), .command (.sit 7 1 0 none), .command (.sit 7 1 1 none)])
    (p := fun s => (s.rooms.get? 1).any fun room =>
      seatIn room.users 7 == none && holderIn room.seats 0 == some 7) (by decide +kernel)
  obtain ⟨room, hroom, hboth⟩ := (Option.any_eq_true _ _).mp hleak
  simp only [Bool.and_eq_true, beq_iff_eq] at hboth
  have hseat := ((h t ht 1 room hroom).mirror 7 0).mpr hboth.2
  rw [hboth.1] at hseat
  cases hseat

end RoomService

end DnServer.Bullfight
