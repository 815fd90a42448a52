import DnServer.Lib.Service
import DnServer.Bullfight.Agent.Seat
import DnServer.Bullfight.Agent.Ledger

/-!
# Red packets

A player that has gone bankrupt often enough gets a red packet now and then. The agent keeps
how long the player has waited, in `redpackettime` and, since `redstarttime`, by the clock.
`RedPacket` brings the time up to date and clamps it, but never looks whether it is over: the
packet is granted whenever the player is poor enough.

* `redPackets_paced`: `PaceInv` keeps for the one request that waits how long its player
  has been eligible; a packet is recorded when `RedPacket` has paid it.
* `packet_without_waiting`: a player asks as soon as it is poor, and is paid.
-/

namespace DnServer.Bullfight

open DnServer.Lib

namespace Agent

/-! ## The handlers -/

/-- `task.reward_money[task.id.redpacket][1]`. -/
abbrev task.redpacketReward : ℚ := 2000

/-- What `RedPacket` asks before it grants. -/
def Eligible (s : State) : Prop :=
  s.redpacket < task.count task.redpacket ∧ s.money < minmoney_fastenter ∧
    s.protect ≥ task.count task.protect

instance (s : State) : Decidable (Eligible s) := inferInstanceAs (Decidable (_ ∧ _))

/-- `GetRedPacketReward` after the database has answered. -/
def rewardAnswered (ret : Bool) : Handler Unit := do
  if ret then AddMoney task.redpacketReward (.task task.redpacket)
  Co.write fun s => { s with redpacket := s.redpacket + 1, redstarttime := 0, redpackettime := 0 }

def GetRedPacketReward : Handler Unit := do
  let ret ← callCompleteTask task.redpacket
  rewardAnswered ret

/-- `RedPacket` after the reward: the waiting starts again. -/
def waitAgain : Handler Unit := do
  let s ← Co.read
  if s.money < minmoney_fastenter then
    CheckRedPacketTime
    let now ← osTime
    Co.write fun s => { s with redstarttime := now }

def RedPacket : Handler Unit := do
  Co.write fun s => { s with lockmoney := true }
  let now ← osTime
  Co.write fun s => { s with redpackettime := s.redpackettime + now - s.redstarttime }
  CheckRedPacketTime
  let s ← Co.read
  if Eligible s then
    GetRedPacketReward
    waitAgain
  Co.write fun s => { s with lockmoney := false }

/-! ## The agent and the clock -/

/-- The agent's state, the clock, and what is left of the handlers that wait for the database. -/
structure Desk where
  agent : State
  clock : ℤ
  pending : List (Bool → Handler Unit)

/-- The clock answers at once. -/
def atClock (now : ℤ) : (i : Request) → Option i.answer
  | .time => some now
  | _ => none

/-- A handler goes on up to its end or its question to the database. -/
def Desk.run (d : Desk) (c : Handler Unit) : Desk :=
  match c.advanceWith (atClock d.clock) d.agent with
  | (.call (.SQL_COMPLETE_TASK _) k, t) => { d with agent := t, pending := d.pending ++ [k] }
  | (_, t) => { d with agent := t }

inductive PacketEvent
  | tick (now : ℤ)
  /-- `CMSG_GET_REDPACKET_REWARD`. -/
  | request
  /-- The database answers the `n`-th question that waits. -/
  | answer (n : ℕ) (ret : Bool)
  | money (c : MoneyCall)
  /-- Some other handler writes. -/
  | other (t : State)

def Desk.Step (d : Desk) (e : PacketEvent) (d' : Desk) : Prop :=
  match e with
  | .tick now => d.clock ≤ now ∧ d' = { d with clock := now }
  | .request => d' = d.run RedPacket
  | .answer n ret => ∃ k, d.pending[n]? = some k ∧
      d' = Desk.run { d with pending := d.pending.eraseIdx n } (k ret)
  | .money c => d' = d.run c.run
  | .other t => d' = { d with agent := t }

/-- It starts with a player that logs in. -/
def desk : TSys Desk PacketEvent where
  init d := d.pending = [] ∧ d.agent.redstarttime = 0
  step := Desk.Step

/-! ## What the handlers do -/

/-- What is left of `RedPacket` when it asks the database. -/
def packetAnswered (ret : Bool) : Handler Unit := do
  rewardAnswered ret
  waitAgain
  Co.write fun s => { s with lockmoney := false }

/-- What `CheckRedPacketTime` writes. -/
def State.clamped (s : State) : State :=
  { s with
    redpackettime :=
      if s.redpacket ≥ task.count task.redpacket then task.redpacketTime
      else min s.redpackettime task.redpacketTime }

/-- What `RedPacket` has written when it decides. -/
def begun (now : ℤ) (s : State) : State :=
  State.clamped
    { s with lockmoney := true, redpackettime := s.redpackettime + now - s.redstarttime }

theorem eligible_begun (now : ℤ) (s : State) : Eligible (begun now s) ↔ Eligible s := Iff.rfl

/-- An eligible player's request waits for the database, whenever it comes. -/
theorem run_request_eligible {d : Desk} (h : Eligible d.agent) :
    d.run RedPacket =
      { d with agent := begun d.clock d.agent, pending := d.pending ++ [packetAnswered] } := by
  have hstop : RedPacket.advanceWith (atClock d.clock) d.agent =
      (.call (.SQL_COMPLETE_TASK task.redpacket) packetAnswered, begun d.clock d.agent) := by
    show ((if Eligible (begun d.clock d.agent) then _ else _ : Handler Unit)).advanceWith _
      (begun d.clock d.agent) = _
    rw [if_pos ((eligible_begun _ _).mpr h)]
    rfl
  unfold Desk.run
  rw [hstop]

/-- Any other request comes to its end. -/
theorem run_request_refused {d : Desk} (h : ¬Eligible d.agent) :
    d.run RedPacket = { d with agent := { begun d.clock d.agent with lockmoney := false } } := by
  have hstop : RedPacket.advanceWith (atClock d.clock) d.agent =
      (.done (), { begun d.clock d.agent with lockmoney := false }) := by
    show ((if Eligible (begun d.clock d.agent) then _ else _ : Handler Unit)).advanceWith _
      (begun d.clock d.agent) = _
    rw [if_neg (mt (eligible_begun _ _).mp h)]
    rfl
  unfold Desk.run
  rw [hstop]

/-- The state after `rewardAnswered`. -/
def rewarded (ret : Bool) (s : State) : State :=
  let s := if ret then s.credit task.redpacketReward else s
  { s with redpacket := s.redpacket + 1, redstarttime := 0, redpackettime := 0 }

theorem rewarded_money (ret : Bool) (s : State) :
    (rewarded ret s).money = s.money + if ret then task.redpacketReward else 0 := by
  cases ret with
  | false => exact (add_zero _).symm
  | true => exact (credit_moved s task.redpacketReward).money

theorem waitAgain_advanceWith (now : ℤ) (s : State) : ∃ t, t.money = s.money ∧
    (do
      waitAgain
      Co.write fun s => { s with lockmoney := false } : Handler Unit).advanceWith (atClock now) s =
        (.done (), t) := by
  by_cases hmoney : s.money < minmoney_fastenter
  · refine ⟨{ s.clamped with redstarttime := now, lockmoney := false }, rfl, ?_⟩
    show ((if s.money < minmoney_fastenter then _ else _ : Handler Unit) >>= _ :
      Handler Unit).advanceWith _ s = _
    rw [if_pos hmoney]
    rfl
  · refine ⟨{ s with lockmoney := false }, rfl, ?_⟩
    show ((if s.money < minmoney_fastenter then _ else _ : Handler Unit) >>= _ :
      Handler Unit).advanceWith _ s = _
    rw [if_neg hmoney]
    rfl

/-- The packet is paid if the database agrees, and the handler comes to its end. -/
theorem run_answer (d : Desk) (ret : Bool) : ∃ t,
    d.run (packetAnswered ret) = { d with agent := t } ∧
    t.money = d.agent.money + if ret then task.redpacketReward else 0 := by
  obtain ⟨t, hmoney, hrest⟩ := waitAgain_advanceWith d.clock (rewarded ret d.agent)
  have hstop : (packetAnswered ret).advanceWith (atClock d.clock) d.agent = (.done (), t) := by
    rw [← hrest]
    cases ret <;> rfl
  refine ⟨t, ?_, hmoney.trans (rewarded_money ret d.agent)⟩
  unfold Desk.run
  rw [hstop]

theorem run_money (d : Desk) (c : MoneyCall) : ∃ t, d.run c.run = { d with agent := t } := by
  unfold Desk.run
  obtain ⟨t, hdone⟩ | hraised := c.advance_run d.agent
  · rw [Co.advanceWith_of_done hdone]
    exact ⟨t, rfl⟩
  · rw [Co.advanceWith_of_raised hraised]
    exact ⟨d.agent, rfl⟩

/-! ## Pace -/

/-- A packet that was granted: when it was requested, since when the player was eligible then,
and when the packet before it was granted. -/
structure Grant where
  requested : ℤ
  eligible : Option ℤ
  previous : Option ℤ
deriving DecidableEq

/-- The waiting time was over at the request. -/
def Grant.Paced (g : Grant) : Prop :=
  (∃ since, g.eligible = some since ∧ task.redpacketTime ≤ g.requested - since) ∧
    ∀ before, g.previous = some before → task.redpacketTime ≤ g.requested - before

/-- What is kept beside a run. -/
structure Pace where
  /-- Since when the player is eligible. -/
  eligible : Option ℤ
  /-- When the last packet was granted. -/
  granted : Option ℤ
  /-- For each request that waits for the database, since when the player was eligible, and when
  it came. -/
  asked : List (Option ℤ × ℤ)
  grants : List Grant

/-- What the player has waited before counts. -/
def startPace (d : Desk) : Pace where
  eligible := if Eligible d.agent then some (d.clock - d.agent.redpackettime) else none
  granted := none
  asked := []
  grants := []

/-- A packet is granted where a step of the handler changes the player's money. -/
def Pace.grant (p : Pace) (d d' : Desk) (asked : Option ℤ × ℤ) : Pace :=
  if d'.agent.money ≠ d.agent.money then
    { p with granted := some d.clock, grants := ⟨asked.2, asked.1, p.granted⟩ :: p.grants }
  else p

/-- What the handler does at a request and at an answer: it has asked the database if another
question waits then. -/
def Pace.serve (p : Pace) (d : Desk) (e : PacketEvent) (d' : Desk) : Pace :=
  match e with
  | .request =>
    let asks : Bool := d.pending.length < d'.pending.length
    { p with asked := if asks then p.asked ++ [(p.eligible, d.clock)] else p.asked }.grant d d'
      (p.eligible, d.clock)
  | .answer n _ =>
    { p with asked := p.asked.eraseIdx n }.grant d d' ((p.asked[n]?).getD (none, d.clock))
  | _ => p

def notePace (d : Desk) (e : PacketEvent) (d' : Desk) (p : Pace) : Pace :=
  let p := p.serve d e d'
  { p with eligible := if Eligible d'.agent then p.eligible.or (some d'.clock) else none }

/-- No eligible player sends a request before its waiting time is over, or while another waits
for the database. -/
def InTime (p : Desk × Pace) : PacketEvent → Prop
  | .request => Eligible p.1.agent → p.1.pending = [] ∧
      (∀ since, p.2.eligible = some since → task.redpacketTime ≤ p.1.clock - since) ∧
      ∀ before, p.2.granted = some before → task.redpacketTime ≤ p.1.clock - before
  | _ => True

/-- Requests in time are served one by one, and each has waited long enough. -/
structure PaceInv (d : Desk) (p : Pace) : Prop where
  length : p.asked.length = d.pending.length
  answered : ∀ k ∈ d.pending, k = packetAnswered
  one : d.pending.length ≤ 1
  asked : ∀ a ∈ p.asked, (∃ since, a.1 = some since ∧ task.redpacketTime ≤ a.2 - since) ∧
    ∀ before, p.granted = some before → task.redpacketTime ≤ a.2 - before
  grants : ∀ g ∈ p.grants, g.Paced
  eligible : Eligible d.agent → p.eligible.isSome

/-- Who is eligible now has been so since some time. -/
theorem notePace_eligible (d d' : Desk) (e : PacketEvent) (p : Pace) (h : Eligible d'.agent) :
    (notePace d e d' p).eligible.isSome := by
  show (if Eligible d'.agent then (p.serve d e d').eligible.or (some d'.clock) else none).isSome
  rw [if_pos h]
  cases (p.serve d e d').eligible <;> rfl

/-- A step that neither serves a request nor an answer. -/
theorem PaceInv.aside {d d' : Desk} {e : PacketEvent} {p : Pace} (h : PaceInv d p)
    (hpending : d'.pending = d.pending) (hserve : p.serve d e d' = p) :
    PaceInv d' (notePace d e d' p) where
  length := by
    show (p.serve d e d').asked.length = _
    rw [hserve, hpending]
    exact h.length
  answered := hpending ▸ h.answered
  one := hpending ▸ h.one
  asked := by
    show ∀ a ∈ (p.serve d e d').asked, _ ∧ ∀ before, (p.serve d e d').granted = some before → _
    rw [hserve]
    exact h.asked
  grants := by
    show ∀ g ∈ (p.serve d e d').grants, g.Paced
    rw [hserve]
    exact h.grants
  eligible := notePace_eligible d d' e p

/-- An eligible player's request in time. -/
theorem PaceInv.request {d : Desk} {p : Pace} (h : PaceInv d p) (helig : Eligible d.agent)
    (hin : InTime (d, p) .request) :
    PaceInv (d.run RedPacket) (notePace d .request (d.run RedPacket) p) := by
  obtain ⟨hpending, hsince, hbefore⟩ := hin helig
  have hserve : p.serve d .request (d.run RedPacket) =
      { p with asked := p.asked ++ [(p.eligible, d.clock)] } := by
    rw [run_request_eligible helig]
    simp [Pace.serve, Pace.grant, begun, State.clamped]
  have hasked : p.asked = [] := List.length_eq_zero_iff.mp (by rw [h.length, hpending]; rfl)
  have hrun : (d.run RedPacket).pending = [packetAnswered] := by
    rw [run_request_eligible helig]
    show d.pending ++ _ = _
    rw [hpending, List.nil_append]
  have hasked' : (notePace d .request (d.run RedPacket) p).asked = [(p.eligible, d.clock)] := by
    show (p.serve d .request (d.run RedPacket)).asked = _
    rw [hserve, hasked, List.nil_append]
  refine ⟨by rw [hasked', hrun]; rfl, ?_, by rw [hrun]; exact le_rfl, ?_, ?_,
    notePace_eligible _ _ _ _⟩
  · intro k hk
    rw [hrun] at hk
    exact List.mem_singleton.mp hk
  · intro a ha
    rw [hasked'] at ha
    rw [List.mem_singleton.mp ha]
    refine ⟨?_, ?_⟩
    · obtain ⟨since, hs⟩ := Option.isSome_iff_exists.mp (h.eligible helig)
      exact ⟨since, hs, hsince since hs⟩
    · show ∀ before, (p.serve d .request (d.run RedPacket)).granted = some before → _
      rw [hserve]
      exact hbefore
  · show ∀ g ∈ (p.serve d .request (d.run RedPacket)).grants, g.Paced
    rw [hserve]
    exact h.grants

/-- The answer to the one request that waits. -/
theorem PaceInv.answer {d : Desk} {p : Pace} (h : PaceInv d p) {n : ℕ} {ret : Bool}
    {k : Bool → Handler Unit} (hk : d.pending[n]? = some k) {d' : Desk}
    (hd' : d'.pending = d.pending.eraseIdx n) : PaceInv d' (notePace d (.answer n ret) d' p) := by
  have hlt : n < d.pending.length := (List.getElem?_eq_some_iff.mp hk).1
  have hn : n = 0 := by have := h.one; omega
  subst hn
  obtain ⟨a, hasked⟩ : ∃ a, p.asked = [a] :=
    List.length_eq_one_iff.mp (by have := h.one; have := h.length; omega)
  have hempty : d'.pending = [] := by
    rw [hd']
    refine List.length_eq_zero_iff.mp ?_
    rw [List.length_eraseIdx_of_lt hlt]
    have := h.one
    omega
  obtain ⟨hsince, hbefore⟩ := h.asked a (hasked ▸ List.mem_singleton_self a)
  have hserve : (p.serve d (.answer 0 ret) d').asked = [] ∧
      ∀ g ∈ (p.serve d (.answer 0 ret) d').grants, g.Paced := by
    simp only [Pace.serve, Pace.grant, hasked, List.getElem?_cons_zero, Option.getD_some]
    split_ifs
    · refine ⟨rfl, fun g hg => ?_⟩
      rcases List.mem_cons.mp hg with rfl | hg
      · exact ⟨hsince, hbefore⟩
      · exact h.grants g hg
    · exact ⟨rfl, h.grants⟩
  refine ⟨?_, ?_, ?_, ?_, hserve.2, notePace_eligible _ _ _ _⟩
  · show (p.serve d (.answer 0 ret) d').asked.length = _
    rw [hserve.1, hempty]
    rfl
  · intro k' hk'
    rw [hempty] at hk'
    cases hk'
  · rw [hempty]
    exact Nat.zero_le 1
  · intro b hb
    have hb' : b ∈ (p.serve d (.answer 0 ret) d').asked := hb
    rw [hserve.1] at hb'
    cases hb'

/-- Where every request of an eligible player comes in time, every packet that is granted has
been waited for, whatever else happens. -/
theorem redPackets_paced {s : Desk × Pace}
    (hs : ((desk.observe startPace notePace).restrict InTime).Reachable s) :
    ∀ g ∈ s.2.grants, g.Paced := by
  have hinv : PaceInv s.1 s.2 := by
    induction hs with
    | @init s h0 =>
      obtain ⟨⟨hpending, -⟩, hpace⟩ := h0
      rw [hpace]
      refine ⟨by rw [hpending]; rfl, ?_, by rw [hpending]; exact Nat.zero_le 1, ?_, ?_, ?_⟩
      · rw [hpending]
        exact fun k hk => absurd hk List.not_mem_nil
      · exact fun a ha => absurd ha List.not_mem_nil
      · exact fun g hg => absurd hg List.not_mem_nil
      · intro helig
        show (if Eligible s.1.agent then _ else none : Option ℤ).isSome
        rw [if_pos helig]
        rfl
    | @step s e t _ hstep ih =>
      obtain ⟨hin, hdesk, hpace⟩ := hstep
      obtain ⟨d, p⟩ := s
      obtain ⟨d', p'⟩ := t
      have hpace : p' = notePace d e d' p := hpace
      subst hpace
      cases e with
      | tick now =>
        obtain ⟨-, rfl⟩ := hdesk
        exact ih.aside rfl rfl
      | request =>
        have hdesk : d' = d.run RedPacket := hdesk
        subst hdesk
        by_cases helig : Eligible d.agent
        · exact ih.request helig hin
        · rw [run_request_refused helig]
          refine ih.aside rfl ?_
          simp [Pace.serve, Pace.grant, begun, State.clamped]
      | answer n ret =>
        obtain ⟨k, hk, rfl⟩ := hdesk
        obtain rfl := ih.answered k (List.mem_of_getElem? hk)
        obtain ⟨u, hu, -⟩ := run_answer { d with pending := d.pending.eraseIdx n } ret
        refine ih.answer hk ?_
        rw [hu]
      | money c =>
        have hdesk : d' = d.run c.run := hdesk
        obtain ⟨u, hu⟩ := run_money d c
        subst hdesk
        refine ih.aside ?_ rfl
        rw [hu]
      | other t =>
        have hdesk : d' = { d with agent := t } := hdesk
        subst hdesk
        exact ih.aside rfl rfl
  exact hinv.grants

/-! ## Two runs -/

/-- A player that has been rescued from bankruptcy twice today, and is poor again. -/
def poor (redpackettime : ℤ) : State :=
  { State.start 20 1 with
    uid := some 7, login := true, money := 100, protect := 2, redpackettime := redpackettime }

theorem poor_eligible (redpackettime : ℤ) : Eligible (poor redpackettime) := by
  show (0 : ℕ) < 20 ∧ (100 : ℚ) < 600 ∧ 2 ≥ 2
  norm_num

/-- After a request of the poor player, at 1000 by the clock, a handler waits for the database. -/
theorem poor_asks (redpackettime : ℤ) :
    (Desk.run ⟨poor redpackettime, 1000, []⟩ RedPacket).pending[0]? = some packetAnswered := by
  rw [run_request_eligible (poor_eligible redpackettime)]
  rfl

/-- At 1000 by the clock the poor player requests a packet. -/
def requested (redpackettime : ℤ) : Desk × Pace :=
  let d : Desk := ⟨poor redpackettime, 1000, []⟩
  (d.run RedPacket, notePace d .request (d.run RedPacket) (startPace d))

/-- The database agrees. -/
def granted (redpackettime : ℤ) : Desk × Pace :=
  let (d, p) := requested redpackettime
  let d' := Desk.run { d with pending := d.pending.eraseIdx 0 } (packetAnswered true)
  (d', notePace d (.answer 0 true) d' p)

/-- The player that has waited before. -/
theorem redPackets_paced_waited :
    (granted 600).2.grants = [⟨1000, some 400, none⟩] ∧ ∀ g ∈ (granted 600).2.grants, g.Paced := by
  let d : Desk := ⟨poor 600, 1000, []⟩
  have hin : InTime (d, startPace d) .request := by
    intro _
    refine ⟨rfl, fun since hsince => ?_, fun before hbefore => nomatch hbefore⟩
    have hsome : (startPace d).eligible = some 400 := by decide +kernel
    rw [hsome] at hsince
    obtain rfl := Option.some.inj hsince
    decide
  have hasked : ((desk.observe startPace notePace).restrict InTime).Reachable (requested 600) :=
    .step (.init (s := (d, startPace d)) ⟨⟨rfl, rfl⟩, rfl⟩) (e := PacketEvent.request) ⟨hin, rfl, rfl⟩
  refine ⟨by decide +kernel, redPackets_paced (hasked.step (e := PacketEvent.answer 0 true) ?_)⟩
  exact ⟨trivial, ⟨_, poor_asks 600, rfl⟩, rfl⟩

/-- A packet is granted as soon as the player is poor. -/
theorem packet_without_waiting : (desk.observe startPace notePace).Reachable (granted 0) ∧
    (granted 0).2.grants = [⟨1000, some 1000, none⟩] ∧ ∃ g ∈ (granted 0).2.grants, ¬g.Paced := by
  let d : Desk := ⟨poor 0, 1000, []⟩
  have hasked : (desk.observe startPace notePace).Reachable (requested 0) :=
    .step (.init (s := (d, startPace d)) ⟨⟨rfl, rfl⟩, rfl⟩) (e := PacketEvent.request) ⟨rfl, rfl⟩
  have hgrants : (granted 0).2.grants = [⟨1000, some 1000, none⟩] := by decide +kernel
  refine ⟨hasked.step (e := PacketEvent.answer 0 true) ⟨⟨_, poor_asks 0, rfl⟩, rfl⟩, hgrants, ?_⟩
  rw [hgrants]
  refine ⟨_, List.mem_singleton_self _, ?_⟩
  rintro ⟨⟨since, hsince, hwait⟩, -⟩
  obtain rfl := Option.some.inj hsince
  exact absurd hwait (by decide)

end Agent

end DnServer.Bullfight
