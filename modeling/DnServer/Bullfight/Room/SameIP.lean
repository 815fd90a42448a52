import DnServer.Bullfight.Room.Grants

/-!
# The room service: players from one address

A fast enter looks for a room in which no one plays from the player's address,
going by the addresses written on the seats. Sitting down writes the address;
the fast path takes a seat without writing it. `noteSeats` keeps how the player
on each seat got there. Players who sat down are always respected, players whom
a fast enter has seated are not seen.

* `reachable_noted`: a seat that a player sat down on has its address; one that a fast
  enter took has what was there.
* `apart_iff_noFastTwin`: the search finds no room with the address on a seat
  (`sameIP_of_seat`), so whoever shares it there was seated without.
-/

namespace DnServer.Bullfight

open DnServer.Lib

namespace RoomService

/-! ## How the players got to their seats -/

/-- A player on a seat: the address at the time, and whether by a fast enter. -/
structure Sitting where
  uid : Uid
  IP : Option String
  fast : Bool
deriving DecidableEq

abbrev Sittings := RoomId → ℤ → Option Sitting

/-- The player on a seat. -/
def holder (s : State) (k : RoomId) (n : ℤ) : Option Uid :=
  (s.rooms.get? k).bind fun room => holderIn room.seats n

/-- The address a command comes with. -/
def Command.IP : Command → Option String
  | .fastEnter _ enterconf _ _ => enterconf.IP
  | .sit _ _ _ IP => IP
  | _ => none

def Command.fast : Command → Bool
  | .fastEnter _ _ _ _ => true
  | _ => false

/-- A seat that has a new player notes the command; one that is free notes nothing. -/
def noteSeats (s : State) (e : Event) (t : State) (sittings : Sittings) : Sittings := fun k n =>
  match holder t k n with
  | none => none
  | some uid =>
    if holder s k n = some uid then sittings k n
    else match e with
      | .command c => some ⟨uid, c.IP, c.fast⟩
      | _ => none

/-- The service with a note on each seat. -/
def seating : TSys (State × Sittings) Event := system.observe (fun _ _ _ => none) noteSeats

/-- Another player from the same address, which is not one of the testers'. -/
def SharesIP (uid : Uid) (IP : Option String) (x : Sitting) : Prop :=
  x.uid ≠ uid ∧ x.IP = IP ∧ IP ≠ none ∧
    IP ≠ some serverconf.test_IP1 ∧ IP ≠ some serverconf.test_IP2

/-- No fast enter is answered with a room in which another player from the same
address is seated. -/
def Apart (p : State × Sittings) : Event → Prop
  | .command (.fastEnter address enterconf uplose sumlose) => ∀ t reply roomconf,
      fastEnterRoom p.1 address enterconf uplose sumlose = .ok (t, reply) → reply.ret = 0 →
      reply.roomconf = some roomconf → ∀ n x, p.2 roomconf.roomid n = some x →
      ¬ SharesIP enterconf.uid enterconf.IP x
  | _ => True

/-- In the room a fast enter picks, no other player from the same address was
seated by a fast enter. -/
def NoFastTwin (p : State × Sittings) : Event → Prop
  | .command (.fastEnter _ enterconf uplose sumlose) => ∀ v seatid isprotect,
      fastFind p.1 enterconf uplose sumlose = .ok (.inl (v, seatid, isprotect)) →
      ∀ n x, p.2 v n = some x → x.fast = true → ¬ SharesIP enterconf.uid enterconf.IP x
  | _ => True

/-! ## The notes are true -/

/-- The note is about the player on the seat, whose address is on the seat unless
it was a fast enter. -/
def Noted (s : State) (k : RoomId) (n : ℤ) (x : Sitting) : Prop :=
  ∃ room seat, s.rooms.get? k = some room ∧ room.seats.get? n = some seat ∧
    seat.uid = some x.uid ∧ (x.fast = false → seat.IP = x.IP)

/-- A seat with the same player before and after is the same seat. -/
theorem Change.seat_kept {c : Command} {room room' : Room} (hc : Change c room room') {n : ℤ}
    {seat : Seat} {u : Uid} (hseat : room.seats.get? n = some seat) (hu : seat.uid = some u)
    (hafter : holderIn room'.seats n = some u) : room'.seats.get? n = some seat := by
  cases hc with
  | taken hnew _ hseat' hfree =>
    unfold takeSeat
    rw [if_neg hnew]
    refine (Table.get?_modify_ne _ _ ?_).trans hseat
    rintro rfl
    rw [Option.some.inj (hseat.symm.trans hseat'), hfree] at hu
    cases hu
  | sat _ _ hseat' hfree =>
    refine (Table.get?_modify_ne _ _ ?_).trans hseat
    rintro rfl
    rw [Option.some.inj (hseat.symm.trans hseat'), hfree] at hu
    cases hu
  | @stood uid _ _ _ _ _ _ _ _ _ hseat' _ =>
    refine (Table.get?_modify_ne _ _ ?_).trans hseat
    rintro rfl
    have hfree : holderIn (standUp room uid n).seats n = none := holderIn_modify_self hseat' _
    rw [hfree] at hafter
    cases hafter
  | @quitSeat uid _ _ _ _ _ _ _ _ hseat' _ =>
    refine (Table.get?_modify_ne _ _ ?_).trans hseat
    rintro rfl
    have hfree : holderIn (leave (standUp room uid n) uid).seats n = none :=
      holderIn_modify_self hseat' _
    rw [hfree] at hafter
    cases hafter
  | _ => exact hseat

/-- A seat with a new player was taken by the command, which wrote the address
unless it is a fast enter. -/
theorem Change.seat_new {c : Command} {room room' : Room} (hc : Change c room room') {n : ℤ}
    {u : Uid} (hbefore : holderIn room.seats n ≠ some u)
    (hafter : holderIn room'.seats n = some u) :
    ∃ seat, room'.seats.get? n = some seat ∧ seat.uid = some u ∧
      (c.fast = false → seat.IP = c.IP) := by
  obtain ⟨seat', hseat', hu⟩ := Option.bind_eq_some_iff.mp hafter
  refine ⟨seat', hseat', hu, ?_⟩
  cases hc with
  | taken => intro h; cases h
  | renewedFast => intro h; cases h
  | @sat uid roomid seatid IP _ _ seat _ _ hseat _ =>
    intro _
    by_cases hn : n = seatid
    · subst hn
      have hget : (sitDown room uid n IP).seats.get? n = some { seat with uid := some uid, IP := IP } := by
        refine (Table.get?_modify_self _ _ _).trans ?_
        rw [hseat]
        rfl
      rw [hget] at hseat'
      rw [← Option.some.inj hseat']
      rfl
    · exact absurd ((holderIn_modify_ne _ hn).symm.trans hafter) hbefore
  | @stood uid roomid seatid _ _ _ seat _ _ _ hseat _ =>
    by_cases hn : n = seatid
    · subst hn
      have hfree : holderIn (standUp room uid n).seats n = none := holderIn_modify_self hseat _
      rw [hfree] at hafter
      cases hafter
    · exact absurd ((holderIn_modify_ne _ hn).symm.trans hafter) hbefore
  | @quitSeat uid roomid _ _ own seat _ _ _ hseat _ =>
    by_cases hn : n = own
    · subst hn
      have hfree : holderIn (leave (standUp room uid n) uid).seats n = none :=
        holderIn_modify_self hseat _
      rw [hfree] at hafter
      cases hafter
    · exact absurd ((holderIn_modify_ne _ hn).symm.trans hafter) hbefore
  | _ => exact absurd hafter hbefore

theorem holder_of_room {s : State} {k : RoomId} {room : Room} (h : s.rooms.get? k = some room)
    (n : ℤ) : holder s k n = holderIn room.seats n := by
  unfold holder
  rw [h]
  rfl

/-- A step that leaves every seat alone keeps the notes. -/
theorem noted_of_sameSeats {s t : State} {e : Event} {sittings : Sittings}
    (h : ∀ k n x, sittings k n = some x → Noted s k n x)
    (hsame : ∀ k n, holder t k n = holder s k n)
    (hseat : ∀ k room n seat, s.rooms.get? k = some room → room.seats.get? n = some seat →
      ∃ room', t.rooms.get? k = some room' ∧ room'.seats.get? n = some seat) :
    ∀ k n x, noteSeats s e t sittings k n = some x → Noted t k n x := by
  intro k n x hx
  unfold noteSeats at hx
  rw [hsame] at hx
  cases hholder : holder s k n with
  | none =>
    rw [hholder] at hx
    cases hx
  | some uid =>
    simp only [hholder, if_true] at hx
    obtain ⟨room, seat, hroom, hget, huid, hIP⟩ := h k n x hx
    obtain ⟨room', hroom', hget'⟩ := hseat k room n seat hroom hget
    exact ⟨room', seat, hroom', hget', huid, hIP⟩

theorem noted_command {s : State} (hk : Keyed s) {sittings : Sittings}
    (h : ∀ k n x, sittings k n = some x → Noted s k n x) (c : Command) :
    ∀ k n x, noteSeats s (.command c) (Handler.left (command s c)) sittings k n = some x →
      Noted (Handler.left (command s c)) k n x := by
  rcases command_acts hk c with hsame | ⟨k₀, room, room', _, hroom, hc, ht⟩
  · rw [hsame]
    exact noted_of_sameSeats h (fun _ _ => rfl) fun k room n seat hroom hseat => ⟨room, hroom, hseat⟩
  · rw [ht]
    intro k n x hx
    unfold noteSeats at hx
    by_cases hv : k = k₀
    · subst hv
      have hroom' : (s.setRoom k fun _ => room').rooms.get? k = some room' := setRoom_get? hroom _
      rw [holder_of_room hroom', holder_of_room hroom] at hx
      cases hafter : holderIn room'.seats n with
      | none =>
        rw [hafter] at hx
        cases hx
      | some uid =>
        simp only [hafter] at hx
        split at hx
        · rename_i hbefore
          obtain ⟨room₀, seat, hroom₀, hseat, huid, hIP⟩ := h k n x hx
          obtain rfl := Option.some.inj (hroom.symm.trans hroom₀)
          rw [holderIn_of_get? hseat] at hbefore
          exact ⟨room', seat, hroom', hc.seat_kept hseat hbefore hafter, huid, hIP⟩
        · rename_i hbefore
          obtain rfl := Option.some.inj hx
          obtain ⟨seat, hseat, huid, hIP⟩ := hc.seat_new hbefore hafter
          exact ⟨room', seat, hroom', hseat, huid, hIP⟩
    · have hget : (s.setRoom k₀ fun _ => room').rooms.get? k = s.rooms.get? k := by
        rw [setRoom_rooms, Table.get?_modify_ne _ _ hv]
      have hholder : holder (s.setRoom k₀ fun _ => room') k n = holder s k n := by
        unfold holder
        rw [hget]
      rw [hholder] at hx
      cases hboth : holder s k n with
      | none =>
        rw [hboth] at hx
        cases hx
      | some uid =>
        simp only [hboth, if_true] at hx
        obtain ⟨room₀, seat, hroom₀, hrest⟩ := h k n x hx
        exact ⟨room₀, seat, hget.trans hroom₀, hrest⟩

/-- New configurations leave the seats that are there and add free ones. -/
theorem initRoom_holder (s : State) (result : List RoomConf) (k : RoomId) (n : ℤ) :
    holder (initRoom s result) k n = holder s k n := by
  have heach := Each.initRoom (s := s) (Q := fun k room => (∀ n, holderIn room.seats n = none) ∨
      ∃ room₀, s.rooms.get? k = some room₀ ∧ room.seats = room₀.seats)
    ⟨fun conf => .inl fun n => ?_, fun _ _ h => h⟩ (fun k room h => .inr ⟨room, h, rfl⟩) result
  · cases hroom : s.rooms.get? k with
    | some room =>
      obtain ⟨conf, hroom'⟩ := initRoom_keeps hroom result
      rw [holder_of_room hroom', holder_of_room hroom]
    | none =>
      have hnone : holder s k n = none := by
        unfold holder
        rw [hroom]
        rfl
      rw [hnone]
      cases hroom' : (initRoom s result).rooms.get? k with
      | none =>
        unfold holder
        rw [hroom']
        rfl
      | some room' =>
        rw [holder_of_room hroom']
        rcases heach k room' hroom' with hfree | ⟨room₀, hroom₀, _⟩
        · exact hfree n
        · rw [hroom] at hroom₀
          cases hroom₀
  · cases hseat : (newSeats conf.seatnum.toNat).get? n with
    | none =>
      show (Table.get? _ n).bind _ = none
      rw [show (newRoom conf).seats.get? n = none from hseat]
      rfl
    | some seat =>
      exact (holderIn_of_get? hseat).trans (newSeats_free _ n seat hseat).1

theorem SameRoom.seats {a b : Room} (h : SameRoom a b) (n : ℤ) :
    b.seats.get? n = a.seats.get? n := by
  obtain ⟨seats, users, hseats, _, rfl⟩ := h
  exact (hseats.get? n).symm

theorem Rehash.holder_eq {s t : State} (h : Rehash s t) (k : RoomId) (n : ℤ) :
    holder t k n = holder s k n := by
  cases hroom : s.rooms.get? k with
  | some room =>
    obtain ⟨room', hroom', hsame⟩ := h.keeps hroom
    rw [holder_of_room hroom, holder_of_room hroom']
    unfold holderIn
    rw [hsame.seats]
  | none =>
    have hnone : t.rooms.get? k = none := by
      rw [Table.get?_eq_none] at hroom ⊢
      exact fun hmem => hroom (h.1.1.mem_iff.mpr hmem)
    unfold holder
    rw [hroom, hnone]

/-- In every run the notes are true. -/
theorem reachable_noted : seating.Invariant fun p =>
    ∀ k n x, p.2 k n = some x → Noted p.1 k n x := by
  refine TSys.Inductive.invariant ⟨?_, ?_⟩
  · rintro ⟨s, sittings⟩ ⟨_, hnone⟩ k n x hx
    obtain rfl : sittings = fun _ _ => none := hnone
    cases hx
  · rintro ⟨s, sittings⟩ e ⟨t, sittings'⟩ hs h ⟨hstep, hnote⟩
    obtain rfl : sittings' = noteSeats s e t sittings := hnote
    cases e with
    | command c =>
      obtain rfl : t = Handler.left (command s c) := hstep
      exact noted_command (reachable_keyed s hs.of_observe) h c
    | updateRoomconf result =>
      obtain rfl : t = initRoom s result := hstep
      refine noted_of_sameSeats (e := .updateRoomconf result) h (initRoom_holder s result) ?_
      intro k room n seat hroom hseat
      obtain ⟨conf, hroom'⟩ := initRoom_keeps hroom result
      exact ⟨_, hroom', hseat⟩
    | rehash =>
      have hstep : Rehash s t := hstep
      refine noted_of_sameSeats (e := .rehash) h hstep.holder_eq ?_
      intro k room n seat hroom hseat
      obtain ⟨room', hroom', hsame⟩ := hstep.keeps hroom
      exact ⟨room', hroom', (hsame.seats n).trans hseat⟩

/-! ## What a fast enter sees -/

/-- A seat with this address on it is seen. -/
theorem sameIP_of_seat {room : Room} {n : ℤ} {seat : Seat} {IP : Option String}
    (hseat : room.seats.get? n = some seat) (hIP : seat.IP = IP) (hsome : IP ≠ none)
    (h1 : IP ≠ some serverconf.test_IP1) (h2 : IP ≠ some serverconf.test_IP2) :
    sameIP room IP = true := by
  unfold sameIP
  refine List.any_eq_true.mpr ⟨(n, seat), Table.get?_eq_some.mp hseat, ?_⟩
  have hisSome : IP.isSome = true := Option.isSome_iff_ne_none.mpr hsome
  simp [hIP, hisSome, h1, h2]

/-- In every run, whoever was seated when: a fast enter keeps players of one
address apart exactly when the room it picks has no other player of the address
whom a fast enter has seated. -/
theorem apart_iff_noFastTwin {p : State × Sittings} (hp : seating.Reachable p) (e : Event) :
    Apart p e ↔ NoFastTwin p e := by
  obtain ⟨s, sittings⟩ := p
  have hs : system.Reachable s := hp.of_observe
  have hnoted := reachable_noted _ hp
  cases e with
  | updateRoomconf _ => exact Iff.rfl
  | rehash => exact Iff.rfl
  | command c =>
    cases c with
    | fastEnter address enterconf uplose sumlose =>
      have hcase := fastEnterRoom_cases s address enterconf uplose sumlose
      unfold Apart NoFastTwin
      dsimp only
      generalize fastEnterRoom s address enterconf uplose sumlose = r at hcase ⊢
      cases hcase with
      | raised hno =>
        refine iff_of_true (fun t reply _ h => by cases h) ?_
        intro v seatid isprotect hfind
        obtain ⟨room, _, hroom, _⟩ := fastFind_free (reachable_keyed s hs) hfind
        exact absurd hroom (hno v seatid isprotect room hfind)
      | refused hcode hfind =>
        refine iff_of_true ?_ ?_
        · rintro t reply _ ⟨⟩ hret
          rcases hcode with rfl | rfl
          · cases hret
          · cases hret
        · intro v seatid isprotect h
          rw [hfind] at h
          cases h
      | @granted v seatid isprotect room hroom hfind =>
        have hconf := reachable_conf s hs v room hroom
        obtain ⟨room', _, hroom', hIP, _, _⟩ := fastFind_free (reachable_keyed s hs) hfind
        obtain rfl := Option.some.inj (hroom.symm.trans hroom')
        constructor
        · intro h v' seatid' isprotect' hfind' n x hx _
          obtain ⟨rfl, _⟩ :=
            Prod.mk.injEq .. ▸ Sum.inl.inj (Except.ok.inj (hfind.symm.trans hfind'))
          exact h _ _ room.roomconf rfl rfl rfl n x (by rw [hconf]; exact hx)
        · rintro h t reply roomconf ⟨⟩ _ ⟨⟩ n x hx
          rw [hconf] at hx
          cases hfast : x.fast with
          | true => exact h v seatid isprotect hfind n x hx hfast
          | false =>
            -- the address is on the seat, so the search would have passed the room by
            rintro ⟨_, hsame, hsome, h1, h2⟩
            obtain ⟨room₀, seat, hroom₀, hseat, _, hseatIP⟩ := hnoted v n x hx
            obtain rfl := Option.some.inj (hroom.symm.trans hroom₀)
            have hseen := sameIP_of_seat hseat ((hseatIP hfast).trans hsame) hsome h1 h2
            rw [hIP] at hseen
            cases hseen
    | _ => exact Iff.rfl

/-- Player 7 has sat down in the only room; a fast enter of player 8 from the same address passes
the room by. -/
theorem apart_iff_noFastTwin_seated : ∃ p, seating.Reachable p ∧
    p.2 1 0 = some ⟨7, some "10.0.0.1", false⟩ ∧
    Apart p (.command (fastEntering 8 (some "10.0.0.1"))) := by
  obtain ⟨⟨s, sittings⟩, hp, hend⟩ := TSys.reachable_of_exec
    (T := seating) (TSys.observeExec_step exec_step) (s := (oneRoom, fun _ _ => none))
    ⟨⟨[.twoSeats 1], rfl⟩, rfl⟩
    (l := [.command (entering 7), .command (.sit 7 1 0 (some "10.0.0.1"))])
    (p := fun p => decide (p.2 1 0 = some ⟨7, some "10.0.0.1", false⟩ ∧
      (fastFind p.1 ⟨some 1, some 11, 8, none, 100, some 0, none, "", some "10.0.0.1"⟩
        Table.empty 0).toOption.all Sum.isRight)) (by decide +kernel)
  obtain ⟨hnote, hright⟩ := of_decide_eq_true hend
  refine ⟨_, hp, hnote, (apart_iff_noFastTwin hp _).mpr ?_⟩
  intro v seatid isprotect hfind
  rw [hfind] at hright
  cases hright

/-- Two players from one address look for a seat one after the other: both get one
in the same room. -/
theorem fast_twins_seated : ¬ ∀ p e, seating.Reachable p → Apart p e := by
  intro h
  obtain ⟨⟨s, sittings⟩, hp, hboth⟩ := TSys.reachable_of_exec
    (T := seating) (TSys.observeExec_step exec_step) (s := (oneRoom, fun _ _ => none)) ⟨⟨[.twoSeats 1], rfl⟩, rfl⟩
    (l := [.command (fastEntering 7 (some "10.0.0.1"))])
    (p := fun p => p.2 1 0 == some ⟨7, some "10.0.0.1", true⟩ &&
      (fastEnterRoom p.1 108
        ⟨some 1, some 11, 8, none, 100, some 0, none, "", some "10.0.0.1"⟩ Table.empty 0).toOption.any
        fun q => q.2.ret == 0 && q.2.roomconf == some (.twoSeats 1)) (by decide +kernel)
  have hapart := h _ (.command (fastEntering 8 (some "10.0.0.1"))) hp
  rw [Bool.and_eq_true, beq_iff_eq] at hboth
  obtain ⟨hnote, hanswer⟩ := hboth
  obtain ⟨q, hq, hseated⟩ := (Option.any_eq_true _ _).mp hanswer
  simp only [Bool.and_eq_true, beq_iff_eq] at hseated
  have hok : fastEnterRoom s 108
      ⟨some 1, some 11, 8, none, 100, some 0, none, "", some "10.0.0.1"⟩ Table.empty 0 = .ok q := by
    cases hr : fastEnterRoom s 108
        ⟨some 1, some 11, 8, none, 100, some 0, none, "", some "10.0.0.1"⟩ Table.empty 0 with
    | ok q' =>
      rw [hr] at hq
      rw [Option.some.inj hq]
    | error e =>
      rw [hr] at hq
      cases hq
  exact hapart q.1 q.2 (.twoSeats 1) hok hseated.1 hseated.2 0 _ hnote
    ⟨by decide, rfl, by simp, by decide, by decide⟩

end RoomService

end DnServer.Bullfight
