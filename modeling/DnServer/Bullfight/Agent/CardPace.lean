import DnServer.Bullfight.Agent.CardTime

/-!
# The pace of the scratch cards

While the handlers that keep the time do not overlap, no card is granted before its time. The
time counts from the last request that set it back to 0, or from the start of the day with what
had been sat before. Requests that overlap are all granted for the time of one card.

* `cards_paced`: `Timely` is the invariant. It lists the handlers that wait as `Stage`s,
  at most one of them a `Scratch`, and has the time kept (`Counted`) beside what each of
  them will still write. A request is granted on an answer, when its `Scratch` was asked
  in time.
* `Timely.step`: one case for each event; a handler that is answered is taken out of the
  list (`Timely.answered`), goes on beside the others (`Going`), and stands in it again
  if it waits once more.
* `overlapping_granted`: where a second request comes before the first is answered,
  nothing of the time has been taken yet, and each answer grants a card.
-/

namespace DnServer.Bullfight

open DnServer.Lib

namespace Agent

namespace ScratchCard

/-! ## The record -/

/-- A card that was granted: the number of it, when it was requested, and from when on, with how
much before that, the time counted. -/
structure Grant where
  number : ℕ
  requested : ℤ
  base : ℤ
  since : ℤ
  deriving DecidableEq, Repr

/-- The time of the card was over at the request. -/
def Grant.Paced (g : Grant) : Prop :=
  ∃ t, task.scratchTimes[g.number]? = some t ∧ t ≤ g.base + (g.requested - g.since)

/-- The cards that were granted, each with the request it was granted for. -/
structure Pace where
  base : ℤ
  since : ℤ
  /-- The request that waits for the database. -/
  asked : Option Grant
  grants : List (Option Grant)

/-- The time is back to 0. -/
def Restarted (c : ScratchCard) : Prop := c.gametime = 0 ∧ c.starttime = c.clock

instance (c : ScratchCard) : Decidable c.Restarted := inferInstanceAs (Decidable (_ ∧ _))

namespace Desk

def startPace (d : Desk) : Pace := ⟨d.card.gametime, d.card.clock, none, []⟩

/-- Whether the event lets `Scratch` run. -/
def scratches (d : Desk) : Event → Bool
  | .request => true
  | .answer n _ => d.pending[n]?.any (·.request = .SQL_COMPLETE_TASK)
  | _ => false

/-- The requests, and the cards that are granted. -/
def serve (d : Desk) (e : Event) (d' : Desk) (p : Pace) : Pace :=
  match e with
  | .request =>
    if d.pending.length < d'.pending.length then
      { p with asked := some ⟨d.card.scratch, d.card.clock, p.base, p.since⟩ }
    else p
  | .answer _ _ =>
    if d.scratches e = false then p
    else if d.card.scratch < d'.card.scratch then
      { p with asked := none, grants := p.asked :: p.grants }
    else { p with asked := none }
  | .a_new_day =>
    { p with base := d.card.gametime + d.card.running, since := d.card.clock }
  | _ => p

def notePace (d : Desk) (e : Event) (d' : Desk) (p : Pace) : Pace :=
  let p := d.serve e d' p
  if d.scratches e = true ∧ d'.card.Restarted then { p with base := 0, since := d'.card.clock }
  else p

/-- The handlers that keep the time do not overlap, the database agrees with the agent on the
cards of today, and the type of a room does not change under a player that sits there. -/
def Careful (d : Desk) : Event → Prop
  | .request => ∀ w ∈ d.pending, w.request ≠ .SQL_COMPLETE_TASK ∧ w.request ≠ .CMSG_QUIT_ROOM
  | .sit _ _ | .stand | .quit | .enter | .fast_enter =>
    ∀ w ∈ d.pending, w.request = .SQL_COMPLETE_TASK
  | .answer n a => ∀ w ∈ d.pending[n]?, w.request = .CMSG_ENTER_ROOM →
    d.card.seatid = true → ∀ timed ∈ a .CMSG_ENTER_ROOM, timed = d.card.timed
  | .taskconf num => num = d.card.scratch
  | .gameconf timed => d.card.seatid = true → timed = d.card.timed
  | .tick _ | .save | .a_new_day | .money _ => True

instance (d : Desk) (e : Event) : Decidable (d.Careful e) := by
  unfold Careful
  split <;> infer_instance

end Desk

variable {c : ScratchCard}

/-! ## The handlers that wait -/

/-- Where a handler waits. -/
inductive Stage
  | scratch
  | sitting (refused : Bool)
  | sit
  | stand
  | quit
  | enter
  | entered
  | fast
  | fastEntered (seat : FastSeat)
  | protecting (seat : FastSeat)
  | unseat

namespace Stage

def waiting : Stage → Waiting
  | .scratch => ⟨.SQL_COMPLETE_TASK, scratchRest⟩
  | .sitting refused => ⟨.BreakProtect, fun _ => sitProtected refused⟩
  | .sit => ⟨.CMSG_SIT, SitResp⟩
  | .stand => ⟨.CMSG_STAND, fun _ => standAnswered⟩
  | .quit => ⟨.CMSG_QUIT_ROOM, fun _ => quitAnswered⟩
  | .enter => ⟨.CMSG_ENTER_ROOM, enterAnswered⟩
  | .entered => ⟨.SQL_GET_PLAYNUM, fun _ => pure ()⟩
  | .fast => ⟨.CMSG_FAST_ENTER, fastAnswered⟩
  | .fastEntered seat => ⟨.SQL_GET_PLAYNUM, fun _ => ScratchCard.fastEntered seat⟩
  | .protecting seat => ⟨.BreakProtect, fastSeated seat⟩
  | .unseat => ⟨.CMSG_STAND, fun _ => Co.write fun c => { c with seatid := false }⟩

def isScratch : Stage → Bool
  | .scratch => true
  | _ => false

def isQuit : Stage → Bool
  | .quit => true
  | _ => false

def isStand : Stage → Bool
  | .stand => true
  | _ => false

/-- On the way to a seat, whose time does not run yet. -/
def onWay : Stage → Bool
  | .fastEntered _ | .protecting _ | .unseat => true
  | _ => false

theorem request_waiting (w : Stage) :
    w.waiting.request = .SQL_COMPLETE_TASK ↔ w.isScratch = true := by
  cases w <;> simp [waiting, isScratch]

end Stage

namespace Desk

open Stage

variable {d d' : Desk} {p : Pace} {c c' : ScratchCard} {stages rest : List Stage}
  {w : Stage}

/-- What holds between two events: at most one `Scratch` waits, and at most one of the others. -/
structure Timely (d : Desk) (p : Pace) (stages : List Stage) : Prop where
  pending : d.pending = stages.map waiting
  moves : stages.countP (fun w => !w.isScratch) ≤ 1
  scratches : stages.countP isScratch ≤ 1
  asked : (∃ w ∈ stages, w.isScratch = true) →
    d.card.scratchflag = true ∧ ∃ g, p.asked = some g ∧ g.Paced
  counted : d.card.Counted p.base p.since (stages.any isQuit)
  runs : d.card.seatid = true → d.card.timed = true → stages.any onWay = false →
    d.card.starttime ≠ 0
  stands : stages.any isStand = true → d.card.seatid = true
  rooms : stages.any onWay = true → d.card.roomid = true
  grants : ∀ g ∈ p.grants, ∃ r, g = some r ∧ r.Paced

/-- An event that leaves the handlers where they are. -/
theorem Timely.aside {p' : Pace} (h : Timely d p stages)
    (hflag : d.card.scratchflag = true → c'.scratchflag = true)
    (hroom : c'.roomid = d.card.roomid) (hseat : c'.seatid = d.card.seatid)
    (hstart : c'.starttime = d.card.starttime)
    (htimed : d.card.seatid = true → c'.timed = d.card.timed)
    (hasked : p'.asked = p.asked) (hgrants : p'.grants = p.grants)
    (hcounted : c'.Counted p'.base p'.since (stages.any isQuit)) :
    Timely { d with card := c' } p' stages where
  pending := h.pending
  moves := h.moves
  scratches := h.scratches
  asked hw := by
    obtain ⟨hover, hpaced⟩ := h.asked hw
    rw [hasked]
    exact ⟨hflag hover, hpaced⟩
  counted := hcounted
  runs hs ht hway := by
    have hs : c'.seatid = true := hs
    have ht : c'.timed = true := ht
    rw [hseat] at hs
    rw [htimed hs] at ht
    show c'.starttime ≠ 0
    rw [hstart]
    exact h.runs hs ht hway
  stands hw := by
    show c'.seatid = true
    rw [hseat]
    exact h.stands hw
  rooms hw := by
    show c'.roomid = true
    rw [hroom]
    exact h.rooms hw
  grants := hgrants ▸ h.grants

/-- The handlers beside the one that goes on. -/
structure Beside (c : ScratchCard) (p : Pace) (rest : List Stage) : Prop where
  all : ∀ w ∈ rest, w.isScratch = true
  one : rest.length ≤ 1
  asked : (∃ w ∈ rest, w.isScratch = true) →
    c.scratchflag = true ∧ ∃ g, p.asked = some g ∧ g.Paced
  grants : ∀ g ∈ p.grants, ∃ r, g = some r ∧ r.Paced

theorem Beside.any_eq_false (h : Beside c p rest) (f : Stage → Bool) (hf : f .scratch = false) :
    rest.any f = false := by
  rw [List.any_eq_false]
  intro w hw
  have hscratch := h.all w hw
  cases w <;> simp_all [isScratch]

/-- One of the handlers that keep the time goes on. -/
theorem Beside.go (h : Beside c p rest) (hflag : c.scratchflag = true → c'.scratchflag = true)
    (next : Option Stage) (hnext : ∀ w ∈ next, w.isScratch = false)
    (hcounted : c'.Counted p.base p.since (next.any isQuit))
    (hruns : c'.seatid = true → c'.timed = true → next.any onWay = false → c'.starttime ≠ 0)
    (hstands : next.any isStand = true → c'.seatid = true)
    (hrooms : next.any onWay = true → c'.roomid = true) :
    Timely ⟨c', (rest ++ next.toList).map waiting⟩ p (rest ++ next.toList) := by
  have hall : rest.countP (fun w => !w.isScratch) = 0 := by
    rw [List.countP_eq_zero]
    intro w hw
    simp [h.all w hw]
  have hother : next.toList.countP isScratch = 0 := by
    rw [List.countP_eq_zero]
    intro w hw
    simp [hnext w (Option.mem_toList.mp hw)]
  have hany : ∀ f : Stage → Bool, f .scratch = false →
      (rest ++ next.toList).any f = next.any f := by
    intro f hf
    rw [List.any_append, h.any_eq_false f hf, Bool.false_or]
    cases next <;> simp
  refine ⟨rfl, ?_, ?_, ?_, ?_, ?_, ?_, ?_, h.grants⟩
  · rw [List.countP_append, hall, zero_add]
    refine List.countP_le_length.trans ?_
    cases next <;> simp
  · rw [List.countP_append, hother, add_zero]
    exact List.countP_le_length.trans h.one
  · rintro ⟨w, hw, hscratch⟩
    rcases List.mem_append.mp hw with hw | hw
    · obtain ⟨hover, hpaced⟩ := h.asked ⟨w, hw, hscratch⟩
      exact ⟨hflag hover, hpaced⟩
    · rw [hnext w (Option.mem_toList.mp hw)] at hscratch
      cases hscratch
  · rw [hany isQuit rfl]
    exact hcounted
  · rw [hany onWay rfl]
    exact hruns
  · rw [hany isStand rfl]
    exact hstands
  · rw [hany onWay rfl]
    exact hrooms

theorem Timely.beside (h : Timely d p stages)
    (hall : ∀ w ∈ d.pending, w.request = .SQL_COMPLETE_TASK) : Beside d.card p stages := by
  have hscratch : ∀ w ∈ stages, w.isScratch = true := by
    intro w hw
    refine w.request_waiting.mp (hall _ ?_)
    rw [h.pending]
    exact List.mem_map_of_mem hw
  refine ⟨hscratch, ?_, h.asked, h.grants⟩
  have hcount : stages.countP isScratch = stages.length := List.countP_eq_length.mpr hscratch
  exact hcount ▸ h.scratches

/-- The handler that is answered, and the others. -/
theorem Timely.answered {n : ℕ} {v : Waiting} (h : Timely d p stages)
    (hv : d.pending[n]? = some v) :
    ∃ w rest, v = w.waiting ∧ d.pending.eraseIdx n = rest.map waiting ∧
      (w :: rest).Perm stages := by
  rw [h.pending, List.getElem?_map] at hv
  obtain ⟨w, hw, rfl⟩ := Option.map_eq_some_iff.mp hv
  obtain ⟨hn, hw⟩ := List.getElem?_eq_some_iff.mp hw
  refine ⟨w, stages.eraseIdx n, rfl, ?_, ?_⟩
  · rw [h.pending, List.eraseIdx_map]
  · rw [← hw]
    exact List.getElem_cons_eraseIdx_perm hn

theorem Timely.beside_of_perm (h : Timely d p stages) (hperm : (w :: rest).Perm stages)
    (hw : w.isScratch = false) : Beside d.card p rest := by
  have hmoves := h.moves
  have hscratches := h.scratches
  rw [← hperm.countP_eq, List.countP_cons] at hmoves hscratches
  rw [if_pos (by simp [hw])] at hmoves
  rw [if_neg (by simp [hw])] at hscratches
  have hall : ∀ v ∈ rest, v.isScratch = true := by
    intro v hv
    have hzero := List.countP_eq_zero.mp (by omega : rest.countP (fun w => !w.isScratch) = 0) v hv
    simpa using hzero
  refine ⟨hall, ?_, ?_, h.grants⟩
  · rw [← List.countP_eq_length.mpr hall]
    omega
  · rintro ⟨v, hv, hscratch⟩
    exact h.asked ⟨v, hperm.mem_iff.mp (List.mem_cons_of_mem _ hv), hscratch⟩

/-! ## One event -/

theorem note_of_scratches {e : Event} (hs : d.scratches e = false) :
    notePace d e d' p = d.serve e d' p := by
  unfold notePace
  rw [if_neg]
  simp [hs]

/-- A card that waits for its time starts again. -/
theorem counted_of_restarted {quitting : Bool} (hclock : 0 < c.clock)
    (hgame : c.gametime = 0) (hstart : c.starttime = c.clock) (hflag : c.scratchflag = false) :
    c.Counted 0 c.clock quitting := by
  refine ⟨hclock, le_rfl, hstart.le, fun _ t ht => ?_, fun hover => ?_, fun hover => ?_⟩
  · have hrun : c.running = 0 := by
      unfold running
      rw [if_neg (by omega)]
      omega
    rw [hrun, hgame]
    split <;> omega
  · rw [hflag] at hover
    cases hover
  · rw [hflag] at hover
    cases hover

theorem restarted_cases (c : ScratchCard) :
    (c.scratch < 6 ∧ c.scratchflag = false ∧
      c.restarted = { c with starttime := c.clock, gametime := 0 }) ∨
    ((6 ≤ c.scratch ∨ c.scratchflag = true) ∧ c.restarted = c) := by
  unfold ScratchCard.restarted
  by_cases h : c.scratch < 6 ∧ c.scratchflag = false
  · exact .inl ⟨h.1, h.2, if_pos h⟩
  · refine .inr ⟨?_, if_neg h⟩
    rcases not_and_or.mp h with h | h
    · exact .inl (not_lt.mp h)
    · exact .inr (by simpa using h)

/-- No request waits, nor anyone who quits. -/
def Still (stages : List Stage) : Prop := ∀ w ∈ stages, w.isScratch = false ∧ w.isQuit = false

theorem Still.no_quit (h : Still stages) : stages.any isQuit = false :=
  List.any_eq_false.mpr fun w hw => by simp [(h w hw).2]

theorem Still.no_scratch (h : Still stages) : stages.countP isScratch = 0 :=
  List.countP_eq_zero.mpr fun w hw => by simp [(h w hw).1]

theorem Timely.counted_still (h : Timely d p stages) (hstill : Still stages) :
    d.card.Counted p.base p.since false := by
  have hcounted := h.counted
  rwa [hstill.no_quit] at hcounted

/-- A request whose time is over asks for the card. -/
theorem Timely.request_due (h : Timely d p stages) (hstill : Still stages)
    (hidle : ¬d.card.Idle) (hdue : d.card.counted.waits = some d.card.counted.gametime) :
    Timely (d.run Scratch) (notePace d .request (d.run Scratch) p) (stages ++ [.scratch]) := by
  obtain ⟨hcl, hst, hsc, hse, hti, hro⟩ := counted_frame d.card
  obtain ⟨hover, hearly⟩ := (h.counted_still hstill).counted (.inr hidle) false
  rw [run_request_due hidle hdue]
  have hflag : d.card.counted.scratchflag = true := by
    by_contra hflag
    have hwaits : d.card.waits = some d.card.counted.gametime := by
      rw [← hdue]
      unfold waits
      rw [hsc]
    exact lt_irrefl _ (hearly (by simpa using hflag) _ hwaits).1
  have hpaced : Grant.Paced ⟨d.card.scratch, d.card.clock, p.base, p.since⟩ := by
    refine ⟨_, ?_, ((hover hflag).due hflag _ hdue).2.trans_eq (by rw [hcl])⟩
    rw [← hdue]
    unfold waits
    rw [hsc]
  have hnote : notePace d .request
      ⟨d.card.counted, d.pending ++ [⟨.SQL_COMPLETE_TASK, scratchRest⟩]⟩ p =
        { p with asked := some ⟨d.card.scratch, d.card.clock, p.base, p.since⟩ } := by
    unfold notePace
    rw [if_neg]
    · refine if_pos ?_
      show d.pending.length < (d.pending ++ _).length
      rw [List.length_append]
      exact Nat.lt_succ_self _
    · rintro ⟨-, hzero, -⟩
      have := waits_pos hdue
      have hzero : d.card.counted.gametime = 0 := hzero
      omega
  rw [hnote]
  refine ⟨?_, ?_, ?_, fun _ => ⟨hflag, _, rfl, hpaced⟩, ?_, ?_, ?_, ?_, h.grants⟩
  · rw [List.map_append, h.pending]
    rfl
  · rw [List.countP_append]
    exact h.moves
  · rw [List.countP_append, hstill.no_scratch]
    exact le_rfl
  · rw [List.any_append, hstill.no_quit]
    exact hover hflag
  · intro hs ht hway
    show d.card.counted.starttime ≠ 0
    rw [hst]
    rw [List.any_append, Bool.or_eq_false_iff] at hway
    exact h.runs (hse ▸ hs) (hti ▸ ht) hway.1
  · intro hstand
    show d.card.counted.seatid = true
    rw [hse]
    rw [List.any_append, Bool.or_eq_true] at hstand
    exact h.stands (hstand.resolve_right (by decide))
  · intro hway
    show d.card.counted.roomid = true
    rw [hro]
    rw [List.any_append, Bool.or_eq_true] at hway
    exact h.rooms (hway.resolve_right (by decide))

/-- The time may go back to 0: what else is kept is as it was. -/
theorem Timely.restarted {p' : Pace} (h : Timely d p stages) (hstill : Still stages)
    (hclock : 0 < d.card.clock) (hgrants : p'.grants = p.grants)
    (hcounted : d.card.counted.restarted.Counted p'.base p'.since (stages.any isQuit)) :
    Timely { d with card := d.card.counted.restarted } p' stages := by
  obtain ⟨hcl, hst, -, hse, hti, hro⟩ := counted_frame d.card
  have hframe : d.card.counted.restarted.seatid = d.card.seatid ∧
      d.card.counted.restarted.timed = d.card.timed ∧
      d.card.counted.restarted.roomid = d.card.roomid ∧
      (d.card.starttime ≠ 0 → d.card.counted.restarted.starttime ≠ 0) := by
    obtain ⟨-, -, hr⟩ | ⟨-, hr⟩ := restarted_cases d.card.counted
    · rw [hr]
      refine ⟨hse, hti, hro, fun _ => ?_⟩
      show d.card.counted.clock ≠ 0
      omega
    · rw [hr]
      exact ⟨hse, hti, hro, fun hzero => hst ▸ hzero⟩
  refine ⟨h.pending, h.moves, h.scratches, ?_, hcounted, ?_, ?_, ?_, hgrants ▸ h.grants⟩
  · rintro ⟨w, hw, hscratch⟩
    rw [(hstill w hw).1] at hscratch
    cases hscratch
  · intro hs ht hway
    exact hframe.2.2.2 (h.runs (hframe.1 ▸ hs) (hframe.2.1 ▸ ht) hway)
  · intro hstand
    show d.card.counted.restarted.seatid = true
    rw [hframe.1]
    exact h.stands hstand
  · intro hway
    show d.card.counted.restarted.roomid = true
    rw [hframe.2.2.1]
    exact h.rooms hway

/-- A request that comes too early sets the time back, if there is a card left for today. -/
theorem Timely.request_early (h : Timely d p stages) (hstill : Still stages)
    (hidle : ¬d.card.Idle) (hdue : d.card.counted.waits ≠ some d.card.counted.gametime) :
    Timely (d.run Scratch) (notePace d .request (d.run Scratch) p) stages := by
  have hcounted := h.counted_still hstill
  have hclock := hcounted.clock
  obtain ⟨hcl, hst, -, -, -, -⟩ := counted_frame d.card
  obtain ⟨hover, -⟩ := hcounted.counted (.inr hidle) false
  rw [run_request_early hidle hdue]
  have hserve : d.serve .request { d with card := d.card.counted.restarted } p = p :=
    if_neg (lt_irrefl _)
  obtain ⟨-, hflag, hr⟩ | ⟨hlast, hr⟩ := restarted_cases d.card.counted
  · have hnote : notePace d .request { d with card := d.card.counted.restarted } p =
        { p with base := 0, since := d.card.counted.restarted.clock } := by
      unfold notePace
      rw [hserve, if_pos]
      refine ⟨rfl, ?_⟩
      show d.card.counted.restarted.Restarted
      rw [hr]
      exact ⟨rfl, rfl⟩
    rw [hnote]
    refine h.restarted hstill hclock rfl ?_
    refine counted_of_restarted ?_ ?_ ?_ ?_ <;> rw [hr]
    · exact hcl ▸ hclock
    · exact hflag
  · have hnone : d.card.counted.waits = none := by
      by_contra hw
      obtain ⟨t, ht⟩ := Option.ne_none_iff_exists'.mp hw
      have hlt : d.card.counted.scratch < 6 := waits_isSome.mp (by rw [ht]; rfl)
      have hflag := hlast.resolve_left (by omega)
      have hle := ((hover hflag).due hflag t ht).1
      unfold ScratchCard.counted at ht hdue hle hflag
      obtain ⟨u, hu, hlt', hc'⟩ | ⟨u, hu, -, hc'⟩ | ⟨hn, hc'⟩ := d.card.added.checked_cases
      · rw [hc'] at ht hle
        obtain rfl : u = t := Option.some.inj (hu.symm.trans ht)
        omega
      · rw [hc'] at hdue
        exact hdue hu
      · rw [hc'] at ht
        rw [show d.card.added.waits = some t from ht] at hn
        cases hn
    have hstarted := hcounted.started
    have hsince := hcounted.since_le
    have hany : ∀ base since : ℤ, since ≤ d.card.clock →
        d.card.counted.restarted.Counted base since (stages.any isQuit) := by
      intro base since hle
      rw [hr]
      refine .of_none hnone (hcl ▸ hclock) (hcl ▸ hle) (by rw [hcl, hst]; exact hstarted)
        fun hflag => (hover hflag).first hflag
    unfold notePace
    rw [hserve]
    split
    · refine h.restarted hstill hclock rfl (hany _ _ ?_)
      rw [hr, hcl]
    · exact h.restarted hstill hclock rfl (hany _ _ hsince)

theorem Timely.request (h : Timely d p stages) (hc : Careful d .request) :
    ∃ stages', Timely (d.run Scratch) (notePace d .request (d.run Scratch) p) stages' := by
  have hstill : Still stages := by
    intro w hw
    have hw' := hc w.waiting (by rw [h.pending]; exact List.mem_map_of_mem hw)
    cases w <;> simp_all [waiting, isScratch, isQuit]
  by_cases hidle : d.card.Idle
  · -- the time does not run and is not enough: nothing is written
    rw [run_request_idle hidle]
    have hnote : notePace d .request d p = p := by
      have hserve : d.serve .request d p = p := if_neg (lt_irrefl _)
      unfold notePace
      rw [hserve, if_neg]
      rintro ⟨-, -, hstart⟩
      have := (h.counted_still hstill).clock
      have := hidle.1
      omega
    rw [hnote]
    exact ⟨stages, h⟩
  by_cases hdue : d.card.counted.waits = some d.card.counted.gametime
  · exact ⟨_, h.request_due hstill hidle hdue⟩
  · exact ⟨_, h.request_early hstill hidle hdue⟩

/-- The database answers a request. -/
theorem Timely.rewarded {n : ℕ} {a : (i : Request) → i.answer} (h : Timely d p stages)
    (hv : d.pending[n]? = some Stage.scratch.waiting)
    (hperm : (Stage.scratch :: rest).Perm stages)
    (hd' : d' = ⟨(d.card.rewarded (a .SQL_COMPLETE_TASK)).restarted, rest.map waiting⟩) :
    Timely d' (notePace d (.answer n a) d' p) rest := by
  obtain ⟨hover, g, hg, hpaced⟩ := h.asked ⟨_, hperm.mem_iff.mp List.mem_cons_self, rfl⟩
  have hscratches : d.scratches (.answer n a) = true := by
    show d.pending[n]?.any _ = true
    rw [hv]
    rfl
  -- what is left when the request that was answered is taken out
  have hmoves := h.moves
  have hcount := h.scratches
  have hruns := h.runs
  have hstands := h.stands
  have hrooms := h.rooms
  have hcounted := h.counted
  rw [← hperm.countP_eq, List.countP_cons] at hmoves hcount
  rw [← hperm.any_eq, List.any_cons] at hruns hstands hrooms hcounted
  simp only [isScratch, onWay, isStand, isQuit, Bool.false_or, Bool.not_true, if_true,
    Bool.false_eq_true, if_false, add_zero] at hmoves hcount hruns hstands hrooms hcounted
  have hnone : ¬∃ w ∈ rest, w.isScratch = true := by
    rintro ⟨w, hw, hscratch⟩
    exact List.countP_eq_zero.mp (by omega : rest.countP isScratch = 0) w hw hscratch
  have hone : rest.countP isScratch ≤ 1 := by omega
  have hclock := hcounted.clock
  by_cases hret : a .SQL_COMPLETE_TASK = true ∧ d.card.lockmoney = false
  · -- the card is granted
    have hcard : d.card.rewarded (a .SQL_COMPLETE_TASK) =
        { d.card with scratch := d.card.scratch + 1, scratchflag := false } := if_pos hret
    have hserve : d.serve (.answer n a) d' p =
        { p with asked := none, grants := some g :: p.grants } := by
      have hmore : d.card.scratch < d'.card.scratch := by
        rw [hd', hcard]
        obtain ⟨-, -, hr⟩ | ⟨-, hr⟩ := restarted_cases _ <;> rw [hr] <;> exact Nat.lt_succ_self _
      unfold serve
      dsimp only
      rw [if_neg (by rw [hscratches]; decide), if_pos hmore, hg]
    have hgrants : ∀ g' ∈ some g :: p.grants, ∃ r, g' = some r ∧ r.Paced := by
      intro g' hg'
      rcases List.mem_cons.mp hg' with rfl | hg'
      · exact ⟨g, rfl, hpaced⟩
      · exact h.grants g' hg'
    obtain ⟨-, -, hr⟩ | ⟨hlast, hr⟩ := restarted_cases (d.card.rewarded (a .SQL_COMPLETE_TASK))
    · rw [hr, hcard] at hd'
      have hnote : notePace d (.answer n a) d' p =
          { p with
            asked := none, grants := some g :: p.grants, base := 0, since := d'.card.clock } := by
        unfold notePace
        rw [hserve, if_pos]
        rw [hd']
        exact ⟨hscratches, rfl, rfl⟩
      rw [hnote, hd']
      exact ⟨rfl, hmoves, hone, fun hw => absurd hw hnone,
        counted_of_restarted hclock rfl rfl rfl, fun _ _ _ => hclock.ne', hstands, hrooms, hgrants⟩
    · rw [hr, hcard] at hd'
      have hlast : 6 ≤ d.card.scratch + 1 := by
        rcases hlast with hlast | hflag
        · rwa [hcard] at hlast
        · rw [hcard] at hflag
          cases hflag
      have hany : ∀ base since : ℤ, since ≤ d.card.clock →
          ScratchCard.Counted { d.card with scratch := d.card.scratch + 1, scratchflag := false }
            base since (rest.any isQuit) := by
        intro base since hle
        refine .of_none ?_ hclock hle hcounted.started fun hflag => nomatch hflag
        exact List.getElem?_eq_none hlast
      unfold notePace
      rw [hserve, hd']
      split
      · exact ⟨rfl, hmoves, hone, fun hw => absurd hw hnone, hany _ _ le_rfl, hruns, hstands,
          hrooms, hgrants⟩
      · exact ⟨rfl, hmoves, hone, fun hw => absurd hw hnone, hany _ _ hcounted.since_le, hruns,
          hstands, hrooms, hgrants⟩
  · -- the time that is over stays over
    have hcard : d.card.rewarded (a .SQL_COMPLETE_TASK) = d.card := if_neg hret
    obtain ⟨-, hflag, -⟩ | ⟨-, hr⟩ := restarted_cases d.card
    · rw [hover] at hflag
      cases hflag
    rw [hcard, hr] at hd'
    have hserve : d.serve (.answer n a) d' p = { p with asked := none } := by
      unfold serve
      dsimp only
      rw [if_neg (by rw [hscratches]; decide), if_neg (by rw [hd']; exact lt_irrefl _)]
    have hnote : notePace d (.answer n a) d' p = { p with asked := none } := by
      unfold notePace
      rw [hserve, if_neg]
      rintro ⟨-, hzero, -⟩
      have hfirst := hcounted.first hover
      rw [hd'] at hzero
      have hzero : d.card.gametime = 0 := hzero
      omega
    rw [hnote, hd']
    exact ⟨rfl, hmoves, hone, fun hw => absurd hw hnone, hcounted, hruns, hstands, hrooms,
      h.grants⟩

/-- One of the handlers that keep the time comes to its end. -/
theorem Beside.finish (h : Beside c p rest) (hflag : c.scratchflag = true → c'.scratchflag = true)
    (hcounted : c'.Counted p.base p.since false)
    (hruns : c'.seatid = true → c'.timed = true → c'.starttime ≠ 0) :
    Timely ⟨c', rest.map waiting⟩ p rest := by
  have hgo := h.go hflag none (fun w hw => nomatch hw) hcounted (fun hs ht _ => hruns hs ht)
    (fun hw => nomatch hw) (fun hw => nomatch hw)
  rwa [Option.toList_none, List.append_nil] at hgo

/-- One of them goes on to another question. -/
theorem Beside.ask (h : Beside c p rest) (w : Stage) (hw : w.isScratch = false)
    (hflag : c.scratchflag = true → c'.scratchflag = true)
    (hcounted : c'.Counted p.base p.since w.isQuit)
    (hruns : c'.seatid = true → c'.timed = true → w.onWay = false → c'.starttime ≠ 0)
    (hstands : w.isStand = true → c'.seatid = true)
    (hrooms : w.onWay = true → c'.roomid = true) :
    Timely ⟨c', rest.map waiting ++ [w.waiting]⟩ p (rest ++ [w]) := by
  have hgo := h.go hflag (some w) (fun v hv => Option.some.inj hv ▸ hw) hcounted hruns hstands
    hrooms
  rwa [Option.toList_some, List.map_append] at hgo

theorem checked_frame (c : ScratchCard) : c.checked.starttime = c.starttime ∧
    c.checked.seatid = c.seatid ∧ c.checked.timed = c.timed ∧
    (c.scratchflag = true → c.checked.scratchflag = true) ∧ c.checked.roomid = c.roomid := by
  obtain ⟨t, -, -, hc⟩ | ⟨t, -, -, hc⟩ | ⟨-, hc⟩ := c.checked_cases <;> rw [hc]
  · exact ⟨rfl, rfl, rfl, id, rfl⟩
  · exact ⟨rfl, rfl, rfl, fun _ => rfl, rfl⟩
  · exact ⟨rfl, rfl, rfl, id, rfl⟩

theorem entered_frame (c : ScratchCard) : c.entered.starttime = c.starttime ∧
    c.entered.seatid = c.seatid ∧ c.entered.timed = c.timed ∧
    (c.scratchflag = true → c.entered.scratchflag = true) ∧ c.entered.roomid = c.roomid := by
  unfold ScratchCard.entered
  split
  · exact checked_frame c
  · exact ⟨rfl, rfl, rfl, id, rfl⟩

/-- Where the player sits, what the time does while it is brought up to date. -/
theorem resumed_frame (c : ScratchCard) (ret : Option Bool) (hclock : 0 < c.clock) :
    ((c.resumed ret).seatid = true → (c.resumed ret).timed = true →
      (c.resumed ret).starttime ≠ 0) ∧
    (c.scratchflag = true → (c.resumed ret).scratchflag = true) := by
  let c' : ScratchCard := { c with roomid := c.roomid || ret.isSome, timed := ret.getD c.timed }
  have hcl : c'.counted.clock = c.clock := (counted_frame c').1
  show (ScratchCard.seatid (if c'.seatid = true ∧ c'.timed = true then _ else c') = true →
    ScratchCard.timed (if c'.seatid = true ∧ c'.timed = true then _ else c') = true →
    ScratchCard.starttime (if c'.seatid = true ∧ c'.timed = true then _ else c') ≠ 0) ∧
    (c.scratchflag = true →
      ScratchCard.scratchflag (if c'.seatid = true ∧ c'.timed = true then _ else c') = true)
  split
  · refine ⟨fun _ _ => ?_, fun hflag => (checked_frame c'.added).2.2.2.1 hflag⟩
    show c'.counted.clock ≠ 0
    omega
  · rename_i hno
    exact ⟨fun hs ht => absurd ⟨hs, ht⟩ hno, id⟩

/-- A handler that keeps the time is started while no other waits. -/
theorem Timely.start (h : Timely d p stages)
    (hall : ∀ w ∈ d.pending, w.request = .SQL_COMPLETE_TASK) (w : Stage) {c' : ScratchCard}
    (hw : w.isScratch = false) (hway : w.onWay = false)
    (hcard : c' = d.card ∨ w = .quit ∧ c' = d.card.leaving)
    (hstands : w.isStand = true → d.card.seatid = true) :
    Timely ⟨c', d.pending ++ [w.waiting]⟩ p (stages ++ [w]) := by
  have hbeside := h.beside hall
  have hcounted := h.counted
  rw [hbeside.any_eq_false isQuit rfl] at hcounted
  have hruns : d.card.seatid = true → d.card.timed = true → d.card.starttime ≠ 0 :=
    fun hs ht => h.runs hs ht (hbeside.any_eq_false onWay rfl)
  rw [h.pending]
  rcases hcard with rfl | ⟨rfl, rfl⟩
  · refine hbeside.ask w hw id ?_ (fun hs ht _ => hruns hs ht) hstands
      (fun hw => absurd hw (by simp [hway]))
    cases w.isQuit with
    | false => exact hcounted
    | true => exact hcounted.quit
  · have hframe : d.card.leaving.scratchflag = d.card.scratchflag ∧
        d.card.leaving.seatid = d.card.seatid ∧ d.card.leaving.timed = d.card.timed ∧
        d.card.leaving.starttime = d.card.starttime := by
      unfold ScratchCard.leaving
      split <;> exact ⟨rfl, rfl, rfl, rfl⟩
    obtain ⟨hflag, hseat, htimed, hstart⟩ := hframe
    refine hbeside.ask .quit hw (fun hover => hflag.trans hover)
      (hcounted.leaving hruns) (fun hs ht _ => ?_) (fun hstand => nomatch hstand)
      (fun hw => nomatch hw)
    rw [hstart]
    exact hruns (hseat ▸ hs) (htimed ▸ ht)

/-- What is known where one of them is answered. -/
structure Going (c : ScratchCard) (p : Pace) (w : Stage) (rest : List Stage) : Prop where
  beside : Beside c p rest
  counted : c.Counted p.base p.since w.isQuit
  runs : c.seatid = true → c.timed = true → w.onWay = false → c.starttime ≠ 0
  stands : w.isStand = true → c.seatid = true
  rooms : w.onWay = true → c.roomid = true

theorem Timely.going (h : Timely d p stages) (hperm : (w :: rest).Perm stages)
    (hw : w.isScratch = false) : Going d.card p w rest := by
  have hbeside := h.beside_of_perm hperm hw
  have hany : ∀ f : Stage → Bool, f .scratch = false → stages.any f = f w := by
    intro f hf
    rw [← hperm.any_eq, List.any_cons, hbeside.any_eq_false f hf, Bool.or_false]
  refine ⟨hbeside, ?_, ?_, ?_, ?_⟩
  · rw [← hany isQuit rfl]
    exact h.counted
  · rw [← hany onWay rfl]
    exact h.runs
  · rw [← hany isStand rfl]
    exact h.stands
  · rw [← hany onWay rfl]
    exact h.rooms

theorem Going.sitProtected {refused refused' : Bool} (h : Going c p (.sitting refused) rest) :
    ∃ stages, Timely (run ⟨c, rest.map waiting⟩ (sitProtected refused')) p stages := by
  rw [run_sitProtected]
  split
  · exact ⟨rest, h.beside.finish id h.counted fun hs ht => h.runs hs ht rfl⟩
  · exact ⟨_, h.beside.ask .sit rfl id h.counted (fun hs ht _ => h.runs hs ht rfl)
      (fun hw => nomatch hw) (fun hw => nomatch hw)⟩

/-- The time starts with the seat. -/
theorem Beside.seated (h : Beside c p rest) (hcounted : c.Counted p.base p.since false) :
    Timely ⟨c.seated, rest.map waiting⟩ p rest := by
  refine h.finish id hcounted.seated fun _ ht => ?_
  have ht : c.timed = true := ht
  show (if c.timed = true then c.clock else c.starttime) ≠ 0
  rw [if_pos ht]
  exact hcounted.clock.ne'

theorem Going.sit (h : Going c p .sit rest) (ret : Bool) :
    ∃ stages, Timely (run ⟨c, rest.map waiting⟩ (SitResp ret)) p stages := by
  rw [run_SitResp]
  refine ⟨rest, ?_⟩
  split
  · exact h.beside.seated h.counted
  · exact h.beside.finish id h.counted fun hs ht => h.runs hs ht rfl

theorem Going.stand (h : Going c p .stand rest) :
    ∃ stages, Timely (run ⟨c, rest.map waiting⟩ standAnswered) p stages := by
  rw [run_standAnswered]
  have hflag : c.stood.scratchflag = c.scratchflag := by
    unfold ScratchCard.stood
    split <;> rfl
  exact ⟨rest, h.beside.finish (fun hover => hflag.trans hover)
    (h.counted.stood fun ht => h.runs (h.stands rfl) ht rfl) fun hs => nomatch hs⟩

theorem Going.quit (h : Going c p .quit rest) :
    ∃ stages, Timely (run ⟨c, rest.map waiting⟩ quitAnswered) p stages := by
  rw [run_quitAnswered]
  exact ⟨rest, h.beside.finish id h.counted.stopped fun hs => nomatch hs⟩

theorem Going.enter (h : Going c p .enter rest) (ret : Option Bool)
    (hsame : c.seatid = true → ∀ timed, ret = some timed → timed = c.timed) :
    ∃ stages, Timely (run ⟨c, rest.map waiting⟩ (enterAnswered ret)) p stages := by
  have hcounted : (c.resumed ret).Counted p.base p.since false := by
    refine h.counted.resumed fun hs ht => h.runs hs ?_ rfl
    cases ret with
    | none => exact ht
    | some timed => rw [← hsame hs timed rfl]; exact ht
  obtain ⟨hruns, hflag⟩ := resumed_frame c ret h.counted.clock
  cases ret with
  | none =>
    rw [run_enterAnswered_none]
    exact ⟨rest, h.beside.finish hflag hcounted hruns⟩
  | some timed =>
    rw [run_enterAnswered_some]
    obtain ⟨hstart, hseat, htimed, hover, -⟩ := entered_frame (c.resumed (some timed))
    refine ⟨_, h.beside.ask .entered rfl (fun hf => hover (hflag hf)) hcounted.entered
      (fun hs ht _ => ?_) (fun hw => nomatch hw) (fun hw => nomatch hw)⟩
    rw [hstart]
    exact hruns (hseat ▸ hs) (htimed ▸ ht)

theorem Going.fast (h : Going c p .fast rest) (ret : Option FastSeat) :
    ∃ stages, Timely (run ⟨c, rest.map waiting⟩ (fastAnswered ret)) p stages := by
  cases ret with
  | none =>
    rw [run_fastAnswered_none]
    exact ⟨rest, h.beside.finish id h.counted fun hs ht => h.runs hs ht rfl⟩
  | some seat =>
    rw [run_fastAnswered_some]
    let taken : ScratchCard := { c with roomid := true, timed := seat.timed, seatid := true }
    have htaken : taken.Counted p.base p.since false :=
      ⟨h.counted.clock, h.counted.since_le, h.counted.started, h.counted.early, h.counted.due,
        h.counted.first⟩
    obtain ⟨-, -, -, hover, hroom⟩ := entered_frame taken
    exact ⟨_, h.beside.ask (.fastEntered seat) rfl hover htaken.entered (fun _ _ hw => nomatch hw)
      (fun hw => nomatch hw) fun _ => hroom⟩

/-- The seat is given back, it has been lost meanwhile, or its time starts. -/
theorem Going.fastSeated (h : Going c p w rest) (hway : w.onWay = true) (hquit : w.isQuit = false)
    (seat : FastSeat) (ok : Bool) :
    ∃ stages, Timely (run ⟨c, rest.map waiting⟩ (fastSeated seat ok)) p stages := by
  have hcounted := h.counted
  rw [hquit] at hcounted
  obtain hrun | ⟨hrun, hlost⟩ | hrun := run_fastSeated ⟨c, rest.map waiting⟩ seat ok
  · rw [hrun]
    exact ⟨_, h.beside.ask .unseat rfl id hcounted (fun _ _ hw => nomatch hw)
      (fun hw => nomatch hw) fun _ => h.rooms hway⟩
  · rw [hrun]
    refine ⟨rest, h.beside.finish id hcounted fun hs => ?_⟩
    have hlost : c.seatid = false := hlost (h.rooms hway)
    rw [hs] at hlost
    cases hlost
  · rw [hrun]
    exact ⟨rest, h.beside.seated hcounted⟩

theorem Going.fastEntered {seat : FastSeat} (h : Going c p (.fastEntered seat) rest) :
    ∃ stages, Timely (run ⟨c, rest.map waiting⟩ (fastEntered seat)) p stages := by
  rw [run_fastEntered]
  split
  · exact ⟨_, h.beside.ask (.protecting seat) rfl id h.counted (fun _ _ hw => nomatch hw)
      (fun hw => nomatch hw) fun _ => h.rooms rfl⟩
  · exact h.fastSeated rfl rfl seat true

theorem Going.unseat (h : Going c p .unseat rest) :
    ∃ stages, Timely (run ⟨c, rest.map waiting⟩
      (Co.write fun c => { c with seatid := false })) p stages := by
  rw [run_of_done rfl]
  exact ⟨rest, h.beside.finish id
    ⟨h.counted.clock, h.counted.since_le, h.counted.started, h.counted.early, h.counted.due,
      h.counted.first⟩ fun hs => nomatch hs⟩

/-- One of them is answered. -/
theorem Timely.moved {n : ℕ} {a : (i : Request) → i.answer} (h : Timely d p stages)
    (hc : Careful d (.answer n a)) (hv : d.pending[n]? = some w.waiting)
    (hrest : d.pending.eraseIdx n = rest.map waiting) (hperm : (w :: rest).Perm stages)
    (hw : w.isScratch = false) :
    ∃ stages', Timely
      (run { d with pending := d.pending.eraseIdx n } (w.waiting.rest (a w.waiting.request))) p
      stages' := by
  have hgoing := h.going hperm hw
  rw [hrest]
  cases w with
  | scratch => cases hw
  | sitting refused => exact hgoing.sitProtected
  | sit => exact hgoing.sit _
  | stand => exact hgoing.stand
  | quit => exact hgoing.quit
  | enter => exact hgoing.enter _ fun hs timed ht => hc _ hv rfl hs timed ht
  | entered =>
    rw [run_of_done rfl]
    exact ⟨rest, hgoing.beside.finish id hgoing.counted fun hs ht => hgoing.runs hs ht rfl⟩
  | fast => exact hgoing.fast _
  | fastEntered seat => exact hgoing.fastEntered
  | protecting seat => exact hgoing.fastSeated rfl rfl seat _
  | unseat => exact hgoing.unseat

/-! ## A run -/

theorem Timely.step {e : Event} (h : Timely d p stages) (hc : Careful d e)
    (he : d.exec e = some d') : ∃ stages', Timely d' (notePace d e d' p) stages' := by
  have hclock := h.counted.clock
  -- a request and an answer move the pace; a handler that is started joins those that wait, and
  -- the rest leave the time as it is
  cases e with
  | tick now =>
    change (if d.card.clock ≤ now then _ else none) = some d' at he
    split at he
    · rename_i hnow
      obtain rfl := Option.some.inj he
      rw [note_of_scratches rfl]
      exact ⟨stages, h.aside id rfl rfl rfl (fun _ => rfl) rfl rfl (h.counted.tick hnow)⟩
    · cases he
  | request =>
    obtain rfl := Option.some.inj he
    exact h.request hc
  | sit short refused =>
    obtain rfl := Option.some.inj he
    rw [note_of_scratches rfl, run_Sit, run_sitProtected]
    split
    · exact ⟨_, h.start hc (.sitting refused) rfl rfl (.inl rfl) fun hw => nomatch hw⟩
    · split
      · exact ⟨stages, h⟩
      · exact ⟨_, h.start hc .sit rfl rfl (.inl rfl) fun hw => nomatch hw⟩
  | stand =>
    obtain rfl := Option.some.inj he
    rw [note_of_scratches rfl, run_StandSucc]
    split
    · exact ⟨_, h.start hc .stand rfl rfl (.inl rfl) fun _ => ‹_›⟩
    · exact ⟨stages, h⟩
  | quit =>
    obtain rfl := Option.some.inj he
    rw [note_of_scratches rfl, run_QuitSucc]
    split
    · exact ⟨_, h.start hc .quit rfl rfl (.inr ⟨rfl, rfl⟩) fun hw => nomatch hw⟩
    · exact ⟨stages, h⟩
  | enter =>
    obtain rfl := Option.some.inj he
    rw [note_of_scratches rfl, run_EnterRoom]
    exact ⟨_, h.start hc .enter rfl rfl (.inl rfl) fun hw => nomatch hw⟩
  | fast_enter =>
    obtain rfl := Option.some.inj he
    rw [note_of_scratches rfl, run_FastEnter]
    exact ⟨_, h.start hc .fast rfl rfl (.inl rfl) fun hw => nomatch hw⟩
  | answer n a =>
    obtain ⟨v, hv, rfl⟩ := Option.map_eq_some_iff.mp he
    obtain ⟨w, rest, rfl, hrest, hperm⟩ := h.answered hv
    cases hw : w.isScratch with
    | true =>
      obtain rfl : w = .scratch := by
        cases w <;> first | rfl | cases hw
      refine ⟨rest, h.rewarded hv hperm ?_⟩
      rw [← hrest]
      exact run_scratchRest _ _
    | false =>
      have hscratches : d.scratches (.answer n a) = false := by
        show d.pending[n]?.any _ = false
        rw [hv, ← Bool.not_eq_true]
        intro hany
        have hreq : w.waiting.request = .SQL_COMPLETE_TASK := by simpa using hany
        rw [w.request_waiting, hw] at hreq
        cases hreq
      rw [note_of_scratches hscratches]
      unfold serve
      dsimp only
      rw [if_pos hscratches]
      exact h.moved hc hv hrest hperm hw
  | save =>
    obtain rfl := Option.some.inj he
    rw [note_of_scratches rfl]
    obtain ⟨hstart, hseat, htimed, hover, hroom⟩ := checked_frame d.card
    exact ⟨stages, h.aside hover hroom hseat hstart (fun _ => htimed) rfl rfl h.counted.checked⟩
  | a_new_day =>
    obtain rfl := Option.some.inj he
    rw [note_of_scratches rfl]
    exact ⟨stages, h.aside id rfl rfl rfl (fun _ => rfl) rfl rfl h.counted.rebased⟩
  | taskconf num =>
    obtain rfl := Option.some.inj he
    obtain rfl : num = d.card.scratch := hc
    rw [note_of_scratches rfl]
    exact ⟨stages, h⟩
  | gameconf timed =>
    obtain rfl := Option.some.inj he
    rw [note_of_scratches rfl]
    split
    · exact ⟨stages, h.aside id rfl rfl rfl (fun hs => hc hs) rfl rfl
        ⟨hclock, h.counted.since_le, h.counted.started, h.counted.early, h.counted.due,
          h.counted.first⟩⟩
    · exact ⟨stages, h⟩
  | money lockmoney =>
    obtain rfl := Option.some.inj he
    rw [note_of_scratches rfl]
    exact ⟨stages, h.aside id rfl rfl rfl (fun _ => rfl) rfl rfl
      ⟨hclock, h.counted.since_le, h.counted.started, h.counted.early, h.counted.due,
        h.counted.first⟩⟩

theorem Timely.initial (h : system.init d) : Timely d d.startPace [] := by
  obtain ⟨hpending, hstart, hflag, hseat, hclock⟩ := h
  refine ⟨hpending, Nat.zero_le _, Nat.zero_le _, fun hw => ?_, ?_, fun hs => ?_, nofun, nofun,
    nofun⟩
  · obtain ⟨w, hw, -⟩ := hw
    cases hw
  · refine ⟨hclock, le_rfl, by omega, fun _ t _ => ?_, fun hover => ?_, fun hover => ?_⟩
    · have hrun : d.card.running = 0 := if_pos hstart
      show d.card.gametime + d.card.running ≤ d.card.gametime + (d.card.clock - d.card.clock)
      omega
    · rw [hflag] at hover
      cases hover
    · rw [hflag] at hover
      cases hover
  · rw [hseat] at hs
    cases hs

/-- Every card that is granted was asked for when its time was over. -/
theorem cards_paced {s : Desk × Pace}
    (h : ((system.observe startPace notePace).restrict fun s e => Careful s.1 e).Reachable s) :
    ∀ g ∈ s.2.grants, ∃ r, g = some r ∧ r.Paced := by
  let T := (system.observe startPace notePace).restrict fun s e => Careful s.1 e
  have htimely : T.Inductive fun s => ∃ stages, Timely s.1 s.2 stages := by
    refine ⟨?_, ?_⟩
    · rintro ⟨d, p⟩ ⟨hinit, hp⟩
      obtain rfl : p = d.startPace := hp
      exact ⟨[], .initial hinit⟩
    · rintro ⟨d, p⟩ e ⟨d', p'⟩ _ ⟨stages, ht⟩ ⟨hc, hexec, hp⟩
      obtain rfl : p' = notePace d e d' p := hp
      exact ht.step hc hexec
  obtain ⟨stages, ht⟩ := htimely.invariant s h
  exact ht.grants

/-- Everything is answered with yes. -/
def yes : (i : Request) → i.answer
  | .SQL_COMPLETE_TASK | .CMSG_SIT | .BreakProtect => true
  | .SQL_GET_PLAYNUM | .CMSG_STAND | .CMSG_QUIT_ROOM => ()
  | .CMSG_ENTER_ROOM => some true
  | .CMSG_FAST_ENTER => none

/-- A player has logged in at 1000. -/
def loggedIn : Desk := ⟨⟨1000, 0, 0, 0, false, false, false, false, false⟩, []⟩

/-- The player sits, asks after 200 seconds and once more after another 240. -/
def patience : List Event :=
  [.enter, .answer 0 yes, .answer 0 yes, .sit false false, .answer 0 yes, .tick 1200, .request,
    .tick 1440, .request, .answer 0 yes]

theorem cards_paced_patience : ∃ s : Desk × Pace,
    s.2.grants = [some ⟨0, 1440, 0, 1200⟩] ∧ ∀ g ∈ s.2.grants, ∃ r, g = some r ∧ r.Paced := by
  have hexec : ∀ s e t, TSys.observeExec exec notePace s e = some t →
      (system.observe startPace notePace).step s e t := TSys.observeExec_step fun _ _ _ h => h
  obtain ⟨s, hreach, hs⟩ := TSys.reachable_of_exec
    (p := fun s : Desk × Pace => s.2.grants == [some ⟨0, 1440, 0, 1200⟩])
    (TSys.restrictExec_step (C := fun (s : Desk × Pace) e => Careful s.1 e) hexec)
    (s := (loggedIn, startPace loggedIn)) ⟨⟨rfl, rfl, rfl, rfl, by decide⟩, rfl⟩ (l := patience)
    (by decide +kernel)
  exact ⟨s, by simpa using hs, cards_paced hreach⟩

/-! ## Requests that overlap -/

/-- The time of the next card is over, and `Scratch` will find it so. -/
structure Due (c : ScratchCard) : Prop where
  started : c.starttime ≤ c.clock
  awake : ¬c.Idle
  due : c.counted.waits = some c.counted.gametime

/-- A card that is due is due again when it has been counted. -/
theorem Due.counted (h : Due c) : Due c.counted := by
  obtain ⟨hcl, hst, -, -, -, -⟩ := counted_frame c
  have hadded : c.counted.gametime ≤ c.counted.added.gametime := by
    have hstarted := h.started
    show _ ≤ c.counted.gametime + c.counted.clock - c.counted.starttime
    omega
  refine ⟨by rw [hcl, hst]; exact h.started, fun hidle => ?_, ?_⟩
  · have hany := hidle.2
    rw [h.due] at hany
    exact absurd hany (by simp)
  · unfold ScratchCard.counted
    obtain ⟨t, ht, hlt, -⟩ | ⟨t, ht, -, hc⟩ | ⟨hn, -⟩ := c.counted.added.checked_cases
    · obtain rfl : t = c.counted.gametime := Option.some.inj (ht.symm.trans h.due)
      omega
    · rw [ScratchCard.counted] at hc ht
      rw [hc]
      exact ht
    · have hn : c.counted.waits = none := hn
      rw [h.due] at hn
      cases hn

/-- As many requests as there are wait for the database. -/
theorem requests_wait {c : ScratchCard} (h : Due c) (ws : List Waiting) (n : ℕ) :
    ∃ c' : ScratchCard, c'.lockmoney = c.lockmoney ∧ c'.scratch = c.scratch ∧ c'.clock = c.clock ∧
      TSys.execAll exec ⟨c, ws⟩ (List.replicate n .request) =
        some ⟨c', ws ++ List.replicate n ⟨.SQL_COMPLETE_TASK, scratchRest⟩⟩ := by
  induction n generalizing c ws with
  | zero => exact ⟨c, rfl, rfl, rfl, by simp [TSys.execAll]⟩
  | succ n ih =>
    obtain ⟨c', hlock, hsc, hcl, hrun⟩ := ih h.counted (ws ++ [⟨.SQL_COMPLETE_TASK, scratchRest⟩])
    obtain ⟨hcl', -, hsc', -, -, -⟩ := counted_frame c
    refine ⟨c', hlock.trans (lockmoney_counted c), hsc.trans hsc', hcl.trans hcl', ?_⟩
    rw [List.replicate_succ, TSys.execAll]
    show (some (Desk.run ⟨c, ws⟩ Scratch)).bind _ = _
    rw [run_request_due h.awake h.due]
    refine hrun.trans ?_
    rw [List.append_assoc, List.replicate_succ]
    rfl

/-- Each of them that is answered with yes is granted. -/
theorem answers_grant {a : (i : Request) → i.answer} (ha : a .SQL_COMPLETE_TASK = true)
    {c : ScratchCard} (hlock : c.lockmoney = false) (n : ℕ) :
    ∃ c' : ScratchCard, c'.scratch = c.scratch + n ∧ c'.clock = c.clock ∧
      TSys.execAll exec ⟨c, List.replicate n ⟨.SQL_COMPLETE_TASK, scratchRest⟩⟩
        (List.replicate n (.answer 0 a)) = some ⟨c', []⟩ := by
  induction n generalizing c with
  | zero => exact ⟨c, rfl, rfl, rfl⟩
  | succ n ih =>
    have hcard : c.rewarded true = { c with scratch := c.scratch + 1, scratchflag := false } :=
      if_pos ⟨rfl, hlock⟩
    have hframe : (c.rewarded true).restarted.lockmoney = false ∧
        (c.rewarded true).restarted.scratch = c.scratch + 1 ∧
        (c.rewarded true).restarted.clock = c.clock := by
      obtain ⟨-, -, hr⟩ | ⟨-, hr⟩ := restarted_cases (c.rewarded true) <;> rw [hr, hcard] <;>
        exact ⟨hlock, rfl, rfl⟩
    obtain ⟨hlock', hsc, hcl⟩ := hframe
    obtain ⟨c', hsc', hcl', hrun⟩ := ih hlock'
    refine ⟨c', by rw [hsc', hsc, Nat.add_assoc, Nat.add_comm 1], hcl'.trans hcl, ?_⟩
    rw [List.replicate_succ, List.replicate_succ, TSys.execAll]
    show (some (Desk.run ⟨c, _⟩ (scratchRest (a .SQL_COMPLETE_TASK)))).bind _ = _
    rw [run_scratchRest, ha]
    exact hrun

/-- **Requests that overlap are all granted, for the time of one card.** -/
theorem overlapping_granted {c : ScratchCard} (h : Due c) (hlock : c.lockmoney = false)
    {a : (i : Request) → i.answer} (ha : a .SQL_COMPLETE_TASK = true) (n : ℕ) :
    ∃ c' : ScratchCard, c'.scratch = c.scratch + n ∧ c'.clock = c.clock ∧
      TSys.execAll exec ⟨c, []⟩ (List.replicate n .request ++ List.replicate n (.answer 0 a)) =
        some ⟨c', []⟩ := by
  obtain ⟨c₁, hlock₁, hsc₁, hcl₁, hrequests⟩ := requests_wait h [] n
  obtain ⟨c₂, hsc₂, hcl₂, hanswers⟩ := answers_grant ha (hlock₁.trans hlock) n
  refine ⟨c₂, by rw [hsc₂, hsc₁], hcl₂.trans hcl₁, ?_⟩
  rw [TSys.execAll_append, hrequests]
  exact hanswers

/-- A player has sat for the time of the first card. -/
def sat : ScratchCard := ⟨1240, 0, 1000, 0, false, false, true, true, true⟩

theorem overlapping_granted_sat : ∃ c' : ScratchCard, c'.scratch = 3 ∧ c'.clock = 1240 ∧
    TSys.execAll exec ⟨sat, []⟩
      (List.replicate 3 .request ++ List.replicate 3 (.answer 0 yes)) = some ⟨c', []⟩ :=
  overlapping_granted (c := sat) ⟨by decide, by decide, by decide⟩ rfl rfl 3

end Desk

end ScratchCard

end Agent

end DnServer.Bullfight
