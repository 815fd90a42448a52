import DnServer.Bullfight.Gate.State

/-!
# Packets on their way to the agent

`noteReceived` keeps the packets the gate has read for every session. Each session goes
through a few stages, from its `open` message to the agent that has a queue of its own.
Two things break the order: a message of the session that the watchdog serves while it
waits for the agent, and a packet that goes to the agent past others that still stand in
the watchdog's queue.

* `Staged.step`: every event by the stage its session is at. The queues are seen through
  `View`, one session at a time, so that the messages of another session change nothing
  (`view_congr`).
* `faithful_of_calm`: the packets with the agent and those under way are the packets
  read, at every stage; `packet_dropped` has a second packet served while the agent is
  being created.
-/

namespace DnServer.Bullfight

open DnServer.Lib

namespace Watchdog

variable {α : Type}

/-! ## Received, delivered, on the way -/

/-- The packets the gate has read for each session. -/
abbrev Received (α : Type) := SessionId → List α

def noteReceived (_s : State α) (e : Event α) (_t : State α) (received : Received α) : Received α :=
  match e with
  | .receive id data => Function.update received id (received id ++ [data])
  | _ => received

/-- The services with a note of what was read. -/
def receiving : TSys (State α × Received α) (Event α) := system.observe (fun _ _ => []) noteReceived

/-- The packets in the queue of the session's agent. -/
def delivered (s : State α) (id : SessionId) : List α :=
  (((s.agent_all.get? id).bind Entry.agent).bind s.agents.get?).getD []

/-- The packet of a report. -/
def Report.packet : Report α → Option α
  | .data _ d => some d
  | _ => none

/-- The session's packets that have been read and are not with the agent yet. -/
def underway (s : State α) (id : SessionId) : List α :=
  ((s.creating.filter fun c => c.id = id).map Creating.data) ++
    (s.reports.filter fun r => r.id = id).filterMap Report.packet

/-- Of every session the packets are with the agent or on their way to it, each once
and in the order in which they were read. -/
def Faithful (p : State α × Received α) : Prop :=
  ∀ id, delivered p.1 id ++ underway p.1 id = p.2 id

/-- While the agent of a session is being created none of the session's messages is
served; the creation succeeds; and no packet goes past others on their way. -/
def Calm (p : State α × Received α) : Event α → Prop
  | .receive id _ =>
    (((p.1.connections.get? id).bind Connection.agent).isSome = true → underway p.1 id = [])
  | .serve _ => ∀ r ∈ p.1.reports.head?, ∀ c ∈ p.1.creating, c.id ≠ r.id
  | .created _ agent => agent.isSome = true
  | _ => True

/-! ## A session by itself -/

/-- What the services hold of one session. -/
structure View (α : Type) where
  conn : Option Connection
  entry : Option Entry
  reports : List (Report α)
  creating : List (Creating α)
  forwards : List Forward
  received : List α

def view (p : State α × Received α) (id : SessionId) : View α where
  conn := p.1.connections.get? id
  entry := p.1.agent_all.get? id
  reports := p.1.reports.filter fun r => r.id = id
  creating := p.1.creating.filter fun c => c.id = id
  forwards := p.1.forwards.filter fun f => f.id = id
  received := p.2 id

/-- Packets in the watchdog's queue, and whether the connection's end is behind them. -/
def queue (id : SessionId) (l : List α) (closed : Bool) : List (Report α) :=
  l.map (.data id) ++ if closed then [.closed id] else []

/-- The gate's connection of a session without an agent. -/
def Plain (conn : Option Connection) (closed : Bool) : Prop :=
  (closed = true → conn = none) ∧ ∀ c ∈ conn, c.agent = none

/-- The stages of a session. -/
inductive Stage (agents : Table Address (List α)) (id : SessionId) : View α → Prop
  /-- Not there yet, or gone before its first packet. -/
  | absent : Stage agents id ⟨none, none, [], [], [], []⟩
  /-- Its first message stands in the watchdog's queue. -/
  | opening {conn fd addr l closed} : Plain conn closed →
      Stage agents id ⟨conn, none, .opened id fd addr :: queue id l closed, [], [], l⟩
  /-- No packet has been served. -/
  | opened {conn fd addr l closed} : Plain conn closed →
      Stage agents id ⟨conn, some ⟨none, none, fd, addr, 1⟩, queue id l closed, [], [], l⟩
  /-- The agent is being created. -/
  | creating {conn fd addr client data l closed} : Plain conn closed →
      Stage agents id ⟨conn, some ⟨none, none, fd, addr, 2⟩, queue id l closed, [⟨id, client, data⟩],
        [], data :: l⟩
  /-- The agent is there. -/
  | running {conn fd addr agent client forwards box l closed} : (closed = true → conn = none) →
      (∀ c ∈ conn, c.agent = none ∨ c.agent = some agent) → (∀ f ∈ forwards, f.agent = agent) →
      agents.get? agent = some box →
      Stage agents id ⟨conn, some ⟨some agent, client, fd, addr, 3⟩, queue id l closed, [], forwards,
        box ++ l⟩

/-- Every session is at one of the stages, no two share an agent, and ids above the
last are new. -/
structure Staged (p : State α × Received α) : Prop where
  stage : ∀ id, Stage p.1.agents id (view p id)
  alone : ∀ id id' entry entry' a, p.1.agent_all.get? id = some entry →
    p.1.agent_all.get? id' = some entry' → entry.agent = some a → entry'.agent = some a → id = id'
  new : ∀ id, p.1.id_index < id → view p id = ⟨none, none, [], [], [], []⟩

/-! ## At every stage the packets are there -/

@[simp] theorem queue_packets (id : SessionId) (l : List α) (closed : Bool) :
    (queue id l closed).filterMap Report.packet = l := by
  have hdata : (l.map (Report.data id)).filterMap Report.packet = l := by
    induction l with
    | nil => rfl
    | cons d l ih => simp only [List.map_cons, List.filterMap_cons, Report.packet, ih]
  unfold queue
  rw [List.filterMap_append, hdata]
  cases closed with
  | false => exact List.append_nil l
  | true => exact List.append_nil l

theorem queue_data (id : SessionId) (l : List α) (d : α) :
    queue id l false ++ [.data id d] = queue id (l ++ [d]) false := by
  simp [queue]

theorem queue_closed (id : SessionId) (l : List α) :
    queue id l false ++ [.closed id] = queue id l true := by
  simp [queue]

/-- What stands first in such a queue. -/
theorem queue_eq_cons {id : SessionId} {l : List α} {closed : Bool} {r : Report α}
    {rest : List (Report α)} (h : queue id l closed = r :: rest) :
    (∃ d l', l = d :: l' ∧ r = .data id d ∧ rest = queue id l' closed) ∨
      l = [] ∧ closed = true ∧ r = .closed id ∧ rest = [] := by
  cases l with
  | nil =>
    cases closed with
    | false => cases h
    | true =>
      obtain ⟨rfl, rfl⟩ := List.cons.inj h
      exact .inr ⟨rfl, rfl, rfl, rfl⟩
  | cons d l =>
    obtain ⟨rfl, rfl⟩ := List.cons.inj h
    exact .inl ⟨d, l, rfl, rfl, rfl⟩

theorem Staged.faithful {p : State α × Received α} (h : Staged p) : Faithful p := by
  intro id
  have hstage := h.stage id
  have hdelivered : delivered p.1 id =
      (((view p id).entry.bind Entry.agent).bind p.1.agents.get?).getD [] := rfl
  have hunderway : underway p.1 id = (view p id).creating.map Creating.data ++
      (view p id).reports.filterMap Report.packet := rfl
  have hreceived : p.2 id = (view p id).received := rfl
  rw [hdelivered, hunderway, hreceived]
  generalize view p id = v at hstage ⊢
  cases hstage with
  | absent => rfl
  | opening hplain => simp [Report.packet, List.filterMap_cons]
  | opened hplain => simp
  | creating hplain => simp
  | running _ _ _ hbox => simp [hbox]

/-- A session's stage looks at the queue of its own agent only. -/
theorem Stage.of_agents {agents agents' : Table Address (List α)} {id : SessionId} {v : View α}
    (h : Stage agents id v)
    (hbox : ∀ entry ∈ v.entry, ∀ a ∈ entry.agent, ∀ l, agents.get? a = some l →
      agents'.get? a = some l) : Stage agents' id v := by
  cases h with
  | absent => exact .absent
  | opening hplain => exact .opening hplain
  | opened hplain => exact .opened hplain
  | creating hplain => exact .creating hplain
  | running hclosed hconn hforwards hmine =>
    exact .running hclosed hconn hforwards (hbox _ rfl _ rfl _ hmine)

/-- The agent of a session has a queue. -/
theorem Stage.box {agents : Table Address (List α)} {id : SessionId} {v : View α}
    (h : Stage agents id v) {entry : Entry} {a : Address} (hentry : v.entry = some entry)
    (ha : entry.agent = some a) : a ∈ agents := by
  cases h with
  | absent => cases hentry
  | opening => cases hentry
  | opened =>
    obtain rfl := Option.some.inj hentry
    cases ha
  | creating =>
    obtain rfl := Option.some.inj hentry
    cases ha
  | running _ _ _ hmine =>
    obtain rfl := Option.some.inj hentry
    obtain rfl := Option.some.inj ha
    exact Table.mem_of_get? hmine

/-- A step that concerns session `k` only: it takes `k` to another stage, leaves the
other sessions and their agents' queues alone, and gives `k` at most a new agent. -/
theorem Staged.change {p q : State α × Received α} (h : Staged p) (k : SessionId)
    (hother : ∀ id, id ≠ k → view q id = view p id)
    (hstage : Stage q.1.agents k (view q k))
    (hbox : ∀ a l, p.1.agents.get? a = some l →
      (∀ entry, p.1.agent_all.get? k = some entry → entry.agent ≠ some a) →
      q.1.agents.get? a = some l)
    (hagent : ∀ entry a, q.1.agent_all.get? k = some entry → entry.agent = some a →
      (∃ entry', p.1.agent_all.get? k = some entry' ∧ entry'.agent = some a) ∨ a ∉ p.1.agents)
    (hnew : ∀ id, q.1.id_index < id → id ≠ k ∧ p.1.id_index < id) : Staged q := by
  have hentry : ∀ id, id ≠ k → q.1.agent_all.get? id = p.1.agent_all.get? id := fun id hid =>
    congrArg View.entry (hother id hid)
  -- the session with `k` on one side
  have hapart : ∀ id entry entry' a, id ≠ k → q.1.agent_all.get? id = some entry →
      q.1.agent_all.get? k = some entry' → entry.agent = some a → entry'.agent = some a → False := by
    intro id entry entry' a hid he he' ha ha'
    rw [hentry id hid] at he
    rcases hagent entry' a he' ha' with ⟨old, hold, hola⟩ | hfresh
    · exact hid (h.alone id k entry old a he hold ha hola)
    · exact hfresh ((h.stage id).box he ha)
  constructor
  · intro id
    by_cases hid : id = k
    · subst hid
      exact hstage
    · rw [hother id hid]
      refine (h.stage id).of_agents fun entry he a ha l hl => hbox a l hl ?_
      intro mine hmine hmia
      exact hid (h.alone id k entry mine a he hmine ha hmia)
  · intro id id' entry entry' a he he' ha ha'
    by_cases hid : id = k
    · by_cases hid' : id' = k
      · rw [hid, hid']
      · subst hid
        exact (hapart id' entry' entry a hid' he' he ha' ha).elim
    · by_cases hid' : id' = k
      · subst hid'
        exact (hapart id entry entry' a hid he he' ha ha').elim
      · rw [hentry id hid] at he
        rw [hentry id' hid'] at he'
        exact h.alone id id' entry entry' a he he' ha ha'
  · intro id hid
    obtain ⟨hne, hlt⟩ := hnew id hid
    rw [hother id hne]
    exact h.new id hlt

/-- A session that is not absent has been given its id. -/
theorem Staged.old {p : State α × Received α} (h : Staged p) {k : SessionId}
    (hk : view p k ≠ ⟨none, none, [], [], [], []⟩) {id : SessionId} (hid : p.1.id_index < id) :
    id ≠ k ∧ p.1.id_index < id :=
  ⟨fun he => hk (h.new k (he ▸ hid)), hid⟩

/-! ## One step -/

theorem view_inj {s : State α} {received : Received α} {id : SessionId} {conn : Option Connection}
    {entry : Option Entry} {reports : List (Report α)} {creating : List (Creating α)}
    {forwards : List Forward} {l : List α}
    (h : view (s, received) id = ⟨conn, entry, reports, creating, forwards, l⟩) :
    s.connections.get? id = conn ∧ s.agent_all.get? id = entry ∧
      (s.reports.filter fun r => r.id = id) = reports ∧
      (s.creating.filter fun c => c.id = id) = creating ∧
      (s.forwards.filter fun f => f.id = id) = forwards ∧ received id = l := View.mk.inj h

/-- What a step has to leave alone for a session's sake. -/
theorem view_congr {s s' : State α} {received received' : Received α} {id : SessionId}
    (hconn : s'.connections.get? id = s.connections.get? id)
    (hentry : s'.agent_all.get? id = s.agent_all.get? id)
    (hreports : (s'.reports.filter fun r => r.id = id) = s.reports.filter fun r => r.id = id)
    (hcreating : (s'.creating.filter fun c => c.id = id) = s.creating.filter fun c => c.id = id)
    (hforwards : (s'.forwards.filter fun f => f.id = id) = s.forwards.filter fun f => f.id = id)
    (hreceived : received' id = received id) : view (s', received') id = view (s, received) id := by
  simp only [view, hconn, hentry, hreports, hcreating, hforwards, hreceived]

theorem Stage.at {agents : Table Address (List α)} {p : State α × Received α} {id : SessionId}
    {v : View α} (h : Stage agents id v) (hconn : p.1.connections.get? id = v.conn)
    (hentry : p.1.agent_all.get? id = v.entry)
    (hreports : (p.1.reports.filter fun r => r.id = id) = v.reports)
    (hcreating : (p.1.creating.filter fun c => c.id = id) = v.creating)
    (hforwards : (p.1.forwards.filter fun f => f.id = id) = v.forwards)
    (hreceived : p.2 id = v.received) : Stage agents id (view p id) := by
  unfold view
  rw [hconn, hentry, hreports, hcreating, hforwards, hreceived]
  exact h

/-- A report concerns its own session only. -/
theorem reports_append_ne (l : List (Report α)) {r : Report α} {id : SessionId} (h : id ≠ r.id) :
    ((l ++ [r]).filter fun r => r.id = id) = l.filter fun r => r.id = id := by
  simp [List.filter_append, Ne.symm h]

theorem reports_append_self (l : List (Report α)) {r : Report α} {id : SessionId} (h : r.id = id) :
    ((l ++ [r]).filter fun r => r.id = id) = (l.filter fun r => r.id = id) ++ [r] := by
  simp [List.filter_append, h]

theorem Plain.fresh : Plain (some ⟨none, none⟩) false := by
  constructor
  · intro hc
    cases hc
  · intro c hc
    obtain rfl := Option.some.inj hc
    rfl

theorem Plain.gone {conn : Option Connection} {closed : Bool} (h : Plain conn closed) :
    conn ≠ none → closed = false := by
  intro hconn
  cases closed with
  | false => rfl
  | true => exact (hconn (h.1 rfl)).elim

theorem Plain.none : Plain none true := ⟨fun _ => rfl, fun _ hc => by cases hc⟩

theorem Staged.connect {s : State α} {received : Received α} (h : Staged (s, received))
    {id fd : ℕ} (addr : String) (hnew : s.id_index < id) :
    Staged (State.report
      { s with connections := s.connections.set id ⟨none, none⟩, id_index := id }
      (.opened id fd addr), received) := by
  obtain ⟨-, hentry, hreports, hcreating, hforwards, hreceived⟩ := view_inj (h.new id hnew)
  apply h.change id
  · intro id' hid'
    simp only [view, State.report, Table.get?_set_ne _ _ hid']
    rw [reports_append_ne s.reports (r := .opened id fd addr) hid']
  · have hstage : Stage s.agents id
        ⟨some ⟨none, none⟩, none, .opened id fd addr :: queue id [] false, [], [], []⟩ :=
      .opening Plain.fresh
    have happend : ((s.reports ++ [Report.opened id fd addr]).filter fun r => r.id = id) =
        .opened id fd addr :: queue id [] false := by
      have hself := reports_append_self s.reports (r := .opened id fd addr) rfl
      exact hself.trans (congrArg (· ++ [Report.opened id fd addr]) hreports)
    exact hstage.at (Table.get?_set_self _ _ _) hentry happend hcreating hforwards hreceived
  · intro a l hl _
    exact hl
  · intro entry a hentry ha
    exact .inl ⟨entry, hentry, ha⟩
  · intro id' hid'
    have hlt : id < id' := hid'
    exact ⟨by omega, by show s.id_index < id'; omega⟩

/-- The gate hands a packet to the watchdog. -/
theorem Staged.report_data {s : State α} {received : Received α} (h : Staged (s, received))
    {id : SessionId} {conn : Connection} (hconn : s.connections.get? id = some conn) (data : α) :
    Staged (s.report (.data id data), Function.update received id (received id ++ [data])) := by
  have hnone : s.connections.get? id ≠ none := by simp [hconn]
  apply h.change id
  · intro id' hid'
    simp only [view, State.report, Function.update_of_ne hid']
    rw [reports_append_ne s.reports (r := .data id data) hid']
  -- the packet is the last one under way, and the last one read
  · have hstage := h.stage id
    generalize hv : view (s, received) id = v at hstage
    have happend : ((s.reports ++ [Report.data id data]).filter fun r => r.id = id) =
        (s.reports.filter fun r => r.id = id) ++ [.data id data] := reports_append_self s.reports rfl
    have hreceived : Function.update received id (received id ++ [data]) id = received id ++ [data] :=
      Function.update_self ..
    cases hstage with
    | absent =>
      obtain ⟨hvconn, -⟩ := view_inj hv
      exact (hnone hvconn).elim
    | opening hplain =>
      obtain ⟨rfl, hentry, hreports, hcreating, hforwards, hl⟩ := view_inj hv
      obtain rfl := hplain.gone hnone
      rw [hreports, List.cons_append, queue_data] at happend
      have hreceived := hreceived.trans (congrArg (· ++ [data]) hl)
      exact (Stage.opening hplain).at rfl hentry happend hcreating hforwards hreceived
    | opened hplain =>
      obtain ⟨rfl, hentry, hreports, hcreating, hforwards, hl⟩ := view_inj hv
      obtain rfl := hplain.gone hnone
      rw [hreports, queue_data] at happend
      have hreceived := hreceived.trans (congrArg (· ++ [data]) hl)
      exact (Stage.opened hplain).at rfl hentry happend hcreating hforwards hreceived
    | creating hplain =>
      obtain ⟨rfl, hentry, hreports, hcreating, hforwards, hl⟩ := view_inj hv
      obtain rfl := hplain.gone hnone
      rw [hreports, queue_data] at happend
      have hreceived := hreceived.trans (congrArg (· ++ [data]) hl)
      exact (Stage.creating hplain).at rfl hentry happend hcreating hforwards hreceived
    | @running _ _ _ _ _ _ _ _ closed hclosed hmine hforward hbox =>
      obtain ⟨rfl, hentry, hreports, hcreating, hforwards, hl⟩ := view_inj hv
      obtain rfl : closed = false := by
        cases closed with
        | false => rfl
        | true => exact (hnone (hclosed rfl)).elim
      rw [hreports, queue_data] at happend
      have hreceived := (hreceived.trans (congrArg (· ++ [data]) hl)).trans (List.append_assoc ..)
      exact (Stage.running hclosed hmine hforward hbox).at rfl hentry happend hcreating hforwards
        hreceived
  · intro a l hl _
    exact hl
  · intro entry a hentry ha
    exact .inl ⟨entry, hentry, ha⟩
  · intro id' hid'
    refine h.old ?_ hid'
    intro hv
    exact hnone (view_inj hv).1

/-- A packet goes straight to the agent. -/
theorem Staged.straight {s : State α} {received : Received α} (h : Staged (s, received))
    {id : SessionId} {conn : Connection} {agent : Address}
    (hconn : s.connections.get? id = some conn) (hagent : conn.agent = some agent)
    (hcalm : underway s id = []) (data : α) :
    Staged (s.deliver agent data, Function.update received id (received id ++ [data])) := by
  have hstage := h.stage id
  generalize hv : view (s, received) id = v at hstage
  have hplain : ∀ {conn' closed}, s.connections.get? id = conn' → ¬Plain conn' closed := by
    rintro conn' closed rfl hplain
    have hnone := hplain.2 conn hconn
    rw [hagent] at hnone
    cases hnone
  cases hstage with
  | absent =>
    obtain ⟨hvconn, -⟩ := view_inj hv
    rw [show s.connections.get? id = none from hvconn] at hconn
    cases hconn
  | opening hp => exact (hplain (view_inj hv).1 hp).elim
  | opened hp => exact (hplain (view_inj hv).1 hp).elim
  | creating hp => exact (hplain (view_inj hv).1 hp).elim
  | @running _ _ _ mine _ _ box l _ hclosed hmine hforward hbox =>
    obtain ⟨rfl, hentry, hreports, hcreating, hforwards, hl⟩ := view_inj hv
    obtain rfl : mine = agent := by
      rcases hmine conn hconn with hnone | hsome
      · rw [hagent] at hnone
        cases hnone
      · rw [hagent] at hsome
        exact (Option.some.inj hsome).symm
    -- nothing is under way, so the packet goes behind those that the agent has
    obtain rfl : l = [] := by
      have hpackets := hcalm
      rw [underway, hreports, queue_packets] at hpackets
      exact (List.append_eq_nil_iff.mp hpackets).2
    have hreceived : Function.update received id (received id ++ [data]) id =
        box ++ [data] ++ [] := by
      rw [Function.update_self, hl, List.append_nil, List.append_nil]
    apply h.change id
    · intro id' hid'
      simp only [view, State.deliver, Function.update_of_ne hid']
    · have hmodified : (s.agents.modify mine fun l => l ++ [data]).get? mine = some (box ++ [data]) := by
        rw [Table.get?_modify_self, hbox]
        rfl
      exact (Stage.running hclosed hmine hforward hmodified).at rfl hentry hreports hcreating
        hforwards hreceived
    · intro a l hl hother
      have hne : a ≠ mine := by
        rintro rfl
        exact hother _ hentry rfl
      rw [State.deliver, Table.get?_modify_ne _ _ hne]
      exact hl
    · intro entry a hentry ha
      exact .inl ⟨entry, hentry, ha⟩
    · intro id' hid'
      refine h.old ?_ hid'
      intro hv'
      rw [show s.connections.get? id = none from (view_inj hv').1] at hconn
      cases hconn

/-- The connection ends. -/
theorem Staged.report_closed {s : State α} {received : Received α} (h : Staged (s, received))
    {id : SessionId} (hconn : id ∈ s.connections) :
    Staged (State.report { s with connections := s.connections.erase id } (.closed id), received) := by
  have hnone : s.connections.get? id ≠ none := fun hn => Table.get?_eq_none.mp hn hconn
  apply h.change id
  · intro id' hid'
    simp only [view, State.report, Table.get?_erase_ne _ hid']
    rw [reports_append_ne s.reports (r := .closed id) hid']
  · have hstage := h.stage id
    generalize hv : view (s, received) id = v at hstage
    have happend : ((s.reports ++ [Report.closed id]).filter fun r => r.id = id) =
        (s.reports.filter fun r => r.id = id) ++ [.closed id] := reports_append_self s.reports rfl
    have hgone := Table.get?_erase_self s.connections id
    cases hstage with
    | absent => exact (hnone (view_inj hv).1).elim
    | opening hplain =>
      obtain ⟨rfl, hentry, hreports, hcreating, hforwards, hl⟩ := view_inj hv
      obtain rfl := hplain.gone hnone
      rw [hreports, List.cons_append, queue_closed] at happend
      exact (Stage.opening Plain.none).at hgone hentry happend hcreating hforwards hl
    | opened hplain =>
      obtain ⟨rfl, hentry, hreports, hcreating, hforwards, hl⟩ := view_inj hv
      obtain rfl := hplain.gone hnone
      rw [hreports, queue_closed] at happend
      exact (Stage.opened Plain.none).at hgone hentry happend hcreating hforwards hl
    | creating hplain =>
      obtain ⟨rfl, hentry, hreports, hcreating, hforwards, hl⟩ := view_inj hv
      obtain rfl := hplain.gone hnone
      rw [hreports, queue_closed] at happend
      exact (Stage.creating Plain.none).at hgone hentry happend hcreating hforwards hl
    | @running _ _ _ agent _ _ _ _ closed hclosed hmine hforward hbox =>
      obtain ⟨rfl, hentry, hreports, hcreating, hforwards, hl⟩ := view_inj hv
      obtain rfl : closed = false := by
        cases closed with
        | false => rfl
        | true => exact (hnone (hclosed rfl)).elim
      rw [hreports, queue_closed] at happend
      have hnomine : ∀ c ∈ (none : Option Connection),
          c.agent = none ∨ c.agent = some agent := by
        intro c hc
        cases hc
      exact (Stage.running (fun _ => rfl) hnomine hforward hbox).at hgone hentry happend hcreating
        hforwards hl
  · intro a l hl _
    exact hl
  · intro entry a hentry ha
    exact .inl ⟨entry, hentry, ha⟩
  · intro id' hid'
    refine h.old ?_ hid'
    intro hv
    exact hnone (view_inj hv).1

/-- The gate learns a session's agent. -/
theorem Staged.forward {s : State α} {received : Received α} (h : Staged (s, received))
    {f : Forward} {rest : List Forward} (hhead : s.forwards = f :: rest) :
    Staged (forwardAgent { s with forwards := rest } f, received) := by
  have hmany : (s.forwards.filter fun f' => f'.id = f.id) =
      f :: rest.filter fun f' => f'.id = f.id := by
    rw [hhead]
    exact List.filter_cons_of_pos (by simp)
  have hmore : (s.forwards.filter fun f' => f'.id = f.id) ≠ [] := by
    rw [hmany]
    exact List.cons_ne_nil _ _
  apply h.change f.id
  · intro id' hid'
    have hrest : (s.forwards.filter fun f' => f'.id = id') = rest.filter fun f' => f'.id = id' := by
      rw [hhead]
      exact List.filter_cons_of_neg (by simpa using Ne.symm hid')
    simp only [view, forwardAgent, Table.get?_modify_ne _ _ hid', hrest]
  · have hstage := h.stage f.id
    generalize hv : view (s, received) f.id = v at hstage
    cases hstage with
    | absent => exact (hmore (view_inj hv).2.2.2.2.1).elim
    | opening hplain => exact (hmore (view_inj hv).2.2.2.2.1).elim
    | opened hplain => exact (hmore (view_inj hv).2.2.2.2.1).elim
    | creating hplain => exact (hmore (view_inj hv).2.2.2.2.1).elim
    | @running _ _ _ mine _ _ _ _ closed hclosed hmine hforward hbox =>
      obtain ⟨rfl, hentry, hreports, hcreating, rfl, hl⟩ := view_inj hv
      have hmodified : (s.connections.modify f.id fun _ => ⟨some f.agent, some f.client⟩).get? f.id =
          (s.connections.get? f.id).map fun _ => ⟨some f.agent, some f.client⟩ :=
        Table.get?_modify_self ..
      rw [hmany] at hforward
      have hclosed' : closed = true → (s.connections.get? f.id).map
          (fun _ => (⟨some f.agent, some f.client⟩ : Connection)) = none := by
        intro hc
        rw [hclosed hc]
        rfl
      have hmine' : ∀ c ∈ (s.connections.get? f.id).map
          (fun _ => (⟨some f.agent, some f.client⟩ : Connection)),
          c.agent = none ∨ c.agent = some mine := by
        intro c hc
        obtain ⟨_, -, rfl⟩ := Option.mem_map.mp hc
        exact .inr (congrArg some (hforward f List.mem_cons_self))
      have hforward' : ∀ f' ∈ rest.filter fun f' => f'.id = f.id, f'.agent = mine :=
        fun f' hf' => hforward f' (List.mem_cons_of_mem _ hf')
      exact (Stage.running hclosed' hmine' hforward' hbox).at hmodified hentry hreports hcreating
        rfl hl
  · intro a l hl _
    exact hl
  · intro entry a hentry ha
    exact .inl ⟨entry, hentry, ha⟩
  · intro id' hid'
    exact h.old (fun hv => hmore (view_inj hv).2.2.2.2.1) hid'

/-! ### The watchdog -/

/-- What the watchdog does with a message. -/
inductive Served (s : State α) (client : Address) : Report α → State α → Prop
  | opened (id fd addr) :
      Served s client (.opened id fd addr)
        { s with agent_all := s.agent_all.set id ⟨none, none, fd, addr, 1⟩ }
  | unknown (id data) : s.agent_all.get? id = none → Served s client (.data id data) s
  | create (id data entry) : s.agent_all.get? id = some entry → entry.agent = none →
      entry.state = 1 → Served s client (.data id data)
        { s with
          agent_all := s.agent_all.modify id fun e => { e with state := 2 }
          creating := s.creating ++ [⟨id, client, data⟩] }
  | pass (id data entry agent) : s.agent_all.get? id = some entry → entry.agent = some agent →
      Served s client (.data id data) (s.deliver agent data)
  | drop (id data entry) : s.agent_all.get? id = some entry → entry.agent = none →
      entry.state ≠ 1 → Served s client (.data id data) s
  | keep (id entry agent) : s.agent_all.get? id = some entry → entry.agent = some agent →
      Served s client (.closed id) s
  | forget (id) : (∀ entry, s.agent_all.get? id = some entry → entry.agent = none) →
      Served s client (.closed id) { s with agent_all := s.agent_all.erase id }

theorem command_served (s : State α) (client : Address) (r : Report α) :
    Served s client r (command s client r) := by
  cases r with
  | opened id fd addr => exact .opened id fd addr
  | data id data =>
    simp only [command]
    split
    · next hnone => exact .unknown id data hnone
    · next entry hentry =>
        split
        · next hfirst => exact .create id data entry hentry hfirst.1 hfirst.2
        · next hfirst =>
            split
            · next agent hagent => exact .pass id data entry agent hentry hagent
            · next hnone =>
                refine .drop id data entry hentry hnone ?_
                intro hstate
                exact hfirst ⟨hnone, hstate⟩
  | closed id =>
    simp only [command]
    split
    · next hsome =>
        obtain ⟨agent, hagent⟩ := Option.isSome_iff_exists.mp hsome
        obtain ⟨entry, hentry, hagent⟩ := Option.bind_eq_some_iff.mp hagent
        exact .keep id entry agent hentry hagent
    · next hnone =>
        refine .forget id ?_
        intro entry hentry
        rw [hentry] at hnone
        exact Option.not_isSome_iff_eq_none.mp hnone

/-- A message changes nothing for the other sessions. -/
theorem Served.other {s s' : State α} {client : Address} {r : Report α} (h : Served s client r s')
    (received : Received α) {id : SessionId} (hid : id ≠ r.id) :
    view (s', received) id = view (s, received) id := by
  cases h with
  | opened => exact view_congr rfl (Table.get?_set_ne _ _ hid) rfl rfl rfl rfl
  | unknown => rfl
  | create k data =>
    have hcreating : ((s.creating ++ [(⟨k, client, data⟩ : Creating α)]).filter fun c => c.id = id) =
        s.creating.filter fun c => c.id = id := by
      have hk : ¬k = id := Ne.symm hid
      simp [List.filter_append, hk]
    exact view_congr rfl (Table.get?_modify_ne _ _ hid) rfl hcreating rfl rfl
  | pass => rfl
  | drop => rfl
  | keep => rfl
  | forget => exact view_congr rfl (Table.get?_erase_ne _ hid) rfl rfl rfl rfl

theorem Served.id_index {s s' : State α} {client : Address} {r : Report α}
    (h : Served s client r s') : s'.id_index = s.id_index := by
  cases h with
  | opened => rfl
  | unknown => rfl
  | create => rfl
  | pass => rfl
  | drop => rfl
  | keep => rfl
  | forget => rfl

/-- Only a creation that returns gives an entry its agent. -/
theorem Served.agent {s s' : State α} {client : Address} {r : Report α} (h : Served s client r s')
    {entry : Entry} {a : Address} (hentry : s'.agent_all.get? r.id = some entry)
    (ha : entry.agent = some a) :
    ∃ old, s.agent_all.get? r.id = some old ∧ old.agent = some a := by
  cases h with
  | opened k fd addr =>
    obtain rfl := Option.some.inj ((Table.get?_set_self s.agent_all k _).symm.trans hentry)
    cases ha
  | unknown => exact ⟨entry, hentry, ha⟩
  | create k data =>
    simp only [Report.id, Table.get?_modify_self, Option.map_eq_some_iff] at hentry
    obtain ⟨old, hold, rfl⟩ := hentry
    exact ⟨old, hold, ha⟩
  | pass => exact ⟨entry, hentry, ha⟩
  | drop => exact ⟨entry, hentry, ha⟩
  | keep => exact ⟨entry, hentry, ha⟩
  | forget k =>
    rw [Report.id, Table.get?_erase_self] at hentry
    cases hentry

/-- A message reaches its own session's agent only. -/
theorem Served.box {s s' : State α} {client : Address} {r : Report α} (h : Served s client r s')
    {a : Address} {l : List α} (hl : s.agents.get? a = some l)
    (hother : ∀ entry, s.agent_all.get? r.id = some entry → entry.agent ≠ some a) :
    s'.agents.get? a = some l := by
  cases h with
  | opened => exact hl
  | unknown => exact hl
  | create => exact hl
  | pass k data entry agent hentry hagent =>
    have hne : a ≠ agent := by
      rintro rfl
      exact hother entry hentry hagent
    rw [State.deliver, Table.get?_modify_ne _ _ hne]
    exact hl
  | drop => exact hl
  | keep => exact hl
  | forget => exact hl

/-- The watchdog serves a message of a session whose agent it does not wait for. -/
theorem Staged.serve {s : State α} {received : Received α} (h : Staged (s, received))
    {r : Report α} {rest : List (Report α)} (hhead : s.reports = r :: rest) (client : Address)
    (hcalm : ∀ c ∈ s.creating, c.id ≠ r.id) :
    Staged (command { s with reports := rest } client r, received) := by
  have hserved := command_served { s with reports := rest } client r
  have hmany : (s.reports.filter fun r' => r'.id = r.id) =
      r :: rest.filter fun r' => r'.id = r.id := by
    rw [hhead]
    exact List.filter_cons_of_pos (by simp)
  have hidle : (s.creating.filter fun c => c.id = r.id) = [] := by
    apply List.filter_eq_nil_iff.mpr
    intro c hc
    simpa using hcalm c hc
  apply h.change r.id
  · intro id' hid'
    have hrest : (rest.filter fun r' => r'.id = id') = s.reports.filter fun r' => r'.id = id' := by
      rw [hhead]
      exact (List.filter_cons_of_neg (by simpa using Ne.symm hid')).symm
    exact (hserved.other received hid').trans (view_congr rfl rfl hrest rfl rfl rfl)
  -- the session of the report, by its stage: the report is its queue's first
  · have hstage := h.stage r.id
    generalize hv : view (s, received) r.id = v at hstage
    cases hstage with
    | absent =>
      have hreports := (view_inj hv).2.2.1
      rw [hmany] at hreports
      cases hreports
    | @opening conn fd addr l closed hplain =>
      obtain ⟨hconn, -, hreports, hcreating, hforwards, hl⟩ := view_inj hv
      rw [hmany] at hreports
      obtain ⟨hr, hqueue⟩ := List.cons.inj hreports
      generalize r.id = id at *
      subst hr
      exact (Stage.opened hplain).at hconn (Table.get?_set_self ..) hqueue hcreating hforwards hl
    | @opened conn fd addr l closed hplain =>
      obtain ⟨hconn, hentry, hreports, hcreating, hforwards, hl⟩ := view_inj hv
      rw [hmany] at hreports
      generalize hid : r.id = id at *
      rcases queue_eq_cons hreports.symm with ⟨d, l', rfl, rfl, hqueue⟩ | ⟨rfl, rfl, rfl, hqueue⟩
      · have hcommand : command { s with reports := rest } client (.data id d) =
            { s with
              reports := rest
              agent_all := s.agent_all.modify id fun e => { e with state := 2 }
              creating := s.creating ++ [⟨id, client, d⟩] } := by
          simp [command, hentry]
        have hentry' : (s.agent_all.modify id fun e => { e with state := 2 }).get? id =
            some ⟨none, none, fd, addr, 2⟩ := by
          rw [Table.get?_modify_self, hentry]
          rfl
        have hcreating' : ((s.creating ++ [(⟨id, client, d⟩ : Creating α)]).filter
            fun c => c.id = id) = [⟨id, client, d⟩] := by
          rw [List.filter_append, hidle]
          simp
        rw [hcommand]
        exact (Stage.creating hplain).at hconn hentry' hqueue hcreating' hforwards hl
      · have hcommand : command { s with reports := rest } client (.closed id) =
            { s with reports := rest, agent_all := s.agent_all.erase id } := by
          simp [command, hentry]
        rw [hcommand]
        exact Stage.absent.at (hconn.trans (hplain.1 rfl)) (Table.get?_erase_self ..) hqueue hcreating
          hforwards hl
    | creating hplain =>
      have hcreating := (view_inj hv).2.2.2.1
      rw [hidle] at hcreating
      cases hcreating
    | @running conn fd addr agent cl forwards box l closed hclosed hmine hforward hbox =>
      obtain ⟨hconn, hentry, hreports, hcreating, hforwards, hl⟩ := view_inj hv
      rw [hmany] at hreports
      generalize hid : r.id = id at *
      rcases queue_eq_cons hreports.symm with ⟨d, l', rfl, rfl, hqueue⟩ | ⟨rfl, rfl, rfl, hqueue⟩
      · have hcommand : command { s with reports := rest } client (.data id d) =
            State.deliver { s with reports := rest } agent d := by
          simp [command, hentry]
        have hbox' : (s.agents.modify agent fun l => l ++ [d]).get? agent = some (box ++ [d]) := by
          rw [Table.get?_modify_self, hbox]
          rfl
        rw [hcommand]
        exact (Stage.running hclosed hmine hforward hbox').at hconn hentry hqueue hcreating hforwards
          (hl.trans (List.append_assoc box [d] l').symm)
      · have hcommand : command { s with reports := rest } client (.closed id) =
            { s with reports := rest } := by
          simp [command, hentry]
        rw [hcommand]
        have hopen : false = true → conn = none := by
          intro hc
          cases hc
        have hnothing : (rest.filter fun r' => r'.id = id) = queue id [] false := hqueue
        exact (Stage.running hopen hmine hforward hbox).at hconn hentry hnothing hcreating hforwards
          hl
  · intro a l hl hother
    exact hserved.box hl hother
  · intro entry a hentry ha
    exact .inl (hserved.agent hentry ha)
  · intro id' hid'
    rw [hserved.id_index] at hid'
    refine h.old ?_ hid'
    intro hv
    have hreports := (view_inj hv).2.2.1
    rw [hmany] at hreports
    cases hreports

theorem eraseIdx_split {β : Type} {l : List β} {i : ℕ} {x : β} (hx : l[i]? = some x) :
    ∃ before after, l = before ++ x :: after ∧ l.eraseIdx i = before ++ after := by
  obtain ⟨hi, rfl⟩ := List.getElem?_eq_some_iff.mp hx
  refine ⟨l.take i, l.drop (i + 1), ?_, List.eraseIdx_eq_take_drop_succ ..⟩
  rw [List.getElem_cons_drop, List.take_append_drop]

/-- The creation of an agent returns. -/
theorem Staged.created {s : State α} {received : Received α} (h : Staged (s, received))
    {i : ℕ} {c : Creating α} (hc : s.creating[i]? = some c) {agent : Address}
    (hfresh : agent ∉ s.agents) :
    Staged (created { s with creating := s.creating.eraseIdx i } c agent, received) := by
  obtain ⟨before, after, hbefore, hafter⟩ := eraseIdx_split hc
  have hstage := h.stage c.id
  generalize hv : view (s, received) c.id = v at hstage
  -- the answer is about this session, so it stands in `creating`: one stage only
  have hmany : (s.creating.filter fun c' => c'.id = c.id) =
      (before.filter fun c' => c'.id = c.id) ++ c :: after.filter fun c' => c'.id = c.id := by
    rw [hbefore, List.filter_append, List.filter_cons_of_pos (by simp)]
  have hmore : (s.creating.filter fun c' => c'.id = c.id) ≠ [] := by
    rw [hmany]
    exact List.append_ne_nil_of_right_ne_nil _ (List.cons_ne_nil _ _)
  cases hstage with
  | absent => exact (hmore (view_inj hv).2.2.2.1).elim
  | opening hplain => exact (hmore (view_inj hv).2.2.2.1).elim
  | opened hplain => exact (hmore (view_inj hv).2.2.2.1).elim
  | running hclosed hmine hforward hbox => exact (hmore (view_inj hv).2.2.2.1).elim
  | @creating conn fd addr client data l closed hplain =>
    obtain ⟨hconn, hentry, hreports, hcreating, hforwards, hl⟩ := view_inj hv
    rw [hmany] at hcreating
    obtain ⟨hnone, hcons⟩ : (before.filter fun c' => c'.id = c.id) = [] ∧
        c :: (after.filter fun c' => c'.id = c.id) = [⟨c.id, client, data⟩] := by
      rcases List.append_eq_singleton_iff.mp hcreating with ⟨hb, ha⟩ | ⟨-, ha⟩
      · exact ⟨hb, ha⟩
      · cases ha
    obtain ⟨hdata, hnone'⟩ := List.cons.inj hcons
    have hmem : c.id ∈ s.agent_all := Table.mem_of_get? hentry
    have hcreated : Watchdog.created { s with creating := s.creating.eraseIdx i } c agent =
        { s with
          creating := s.creating.eraseIdx i
          agent_all := s.agent_all.modify c.id fun e =>
            { e with state := 3, agent := some agent, client := some c.client }
          forwards := s.forwards ++ [⟨c.id, agent, c.client⟩]
          agents := (s.agents.set agent []).modify agent fun l => l ++ [c.data] } := by
      simp only [Watchdog.created, hmem, if_true]
      rfl
    rw [hcreated]
    apply h.change c.id
    · intro id' hid'
      have hkept : ((s.creating.eraseIdx i).filter fun c' => c'.id = id') =
          s.creating.filter fun c' => c'.id = id' := by
        rw [hafter, hbefore, List.filter_append, List.filter_append,
          List.filter_cons_of_neg (by simpa using Ne.symm hid')]
      have hkept' : ((s.forwards ++ [(⟨c.id, agent, c.client⟩ : Forward)]).filter
          fun f => f.id = id') = s.forwards.filter fun f => f.id = id' := by
        simp [List.filter_append, Ne.symm hid']
      exact view_congr rfl (Table.get?_modify_ne _ _ hid') rfl hkept hkept' rfl
    · have hentry' : (s.agent_all.modify c.id fun e =>
          { e with state := 3, agent := some agent, client := some c.client }).get? c.id =
            some ⟨some agent, some c.client, fd, addr, 3⟩ := by
        rw [Table.get?_modify_self, hentry]
        rfl
      have hnothing : ((s.creating.eraseIdx i).filter fun c' => c'.id = c.id) = [] := by
        rw [hafter, List.filter_append, hnone, hnone']
        rfl
      have hforwards' : ((s.forwards ++ [(⟨c.id, agent, c.client⟩ : Forward)]).filter
          fun f => f.id = c.id) = [⟨c.id, agent, c.client⟩] := by
        rw [List.filter_append, hforwards]
        simp
      have hbox : ((s.agents.set agent []).modify agent fun l => l ++ [c.data]).get? agent =
          some [data] := by
        rw [Table.get?_modify_self, Table.get?_set_self, hdata]
        rfl
      have hmine : ∀ f ∈ [(⟨c.id, agent, c.client⟩ : Forward)], f.agent = agent := by
        intro f hf
        rw [List.mem_singleton.mp hf]
      exact (Stage.running hplain.1 (fun c' hc' => .inl (hplain.2 c' hc')) hmine hbox).at hconn
        hentry' hreports hnothing hforwards' hl
    · intro a l' hl' _
      have hne : a ≠ agent := by
        rintro rfl
        exact hfresh (Table.mem_of_get? hl')
      show ((s.agents.set agent []).modify agent _).get? a = some l'
      rw [Table.get?_modify_ne _ _ hne, Table.get?_set_ne _ _ hne]
      exact hl'
    · intro entry a hentry' ha
      have hget : (s.agent_all.modify c.id fun e =>
          { e with state := 3, agent := some agent, client := some c.client }).get? c.id =
            some entry := hentry'
      rw [Table.get?_modify_self, hentry] at hget
      obtain rfl := Option.some.inj hget
      obtain rfl := Option.some.inj ha
      exact .inr hfresh
    · intro id' hid'
      exact h.old (fun hnew => hmore (view_inj hnew).2.2.2.1) hid'

/-! ## A whole run -/

theorem Staged.start : Staged ((State.start : State α), fun _ => []) := by
  constructor
  · intro id
    exact .absent
  · intro id id' entry entry' a hentry
    cases hentry
  · intro id _
    rfl

/-- A step under the condition keeps every session at one of its stages. -/
theorem Staged.step {p q : State α × Received α} {e : Event α} (h : Staged p) (hcalm : Calm p e)
    (hstep : receiving.step p e q) : Staged q := by
  obtain ⟨s, received⟩ := p
  obtain ⟨t, received'⟩ := q
  obtain ⟨hexec, hnote⟩ := hstep
  replace hexec : exec s e = some t := hexec
  replace hnote : received' = noteReceived s e t received := hnote
  subst hnote
  cases e with
  | connect id fd addr =>
    obtain ⟨hnew, hexec⟩ := Option.ite_none_right_eq_some.mp hexec
    obtain rfl := Option.some.inj hexec
    exact h.connect addr hnew
  | receive id data =>
    obtain ⟨conn, hconn, rfl⟩ := Option.map_eq_some_iff.mp hexec
    unfold Watchdog.forward
    split
    · next agent hagent =>
        have hstraight : ((s.connections.get? id).bind Connection.agent).isSome = true := by
          rw [hconn]
          exact Option.isSome_iff_exists.mpr ⟨agent, hagent⟩
        exact h.straight hconn hagent (hcalm hstraight) data
    · exact h.report_data hconn data
  | disconnect id =>
    obtain ⟨hconn, hexec⟩ := Option.ite_none_right_eq_some.mp hexec
    obtain rfl := Option.some.inj hexec
    exact h.report_closed hconn
  | forward =>
    simp only [exec] at hexec
    split at hexec
    · cases hexec
    · next f rest hhead =>
        obtain rfl := Option.some.inj hexec
        exact h.forward hhead
  | serve client =>
    simp only [exec] at hexec
    split at hexec
    · cases hexec
    · next r rest hhead =>
        obtain rfl := Option.some.inj hexec
        have hidle : ∀ c ∈ s.creating, c.id ≠ r.id := by
          apply hcalm r
          rw [hhead]
          rfl
        exact h.serve hhead client hidle
  | created i agent =>
    obtain ⟨c, hc, hexec⟩ := Option.bind_eq_some_iff.mp hexec
    cases agent with
    | none => cases hcalm
    | some agent =>
      simp only at hexec
      split at hexec
      · cases hexec
      · next hfresh =>
          obtain rfl := Option.some.inj hexec
          exact h.created hc hfresh

theorem staged_inductive : (receiving.restrict (Calm (α := α))).Inductive Staged := by
  constructor
  · rintro ⟨s, received⟩ ⟨rfl, hreceived⟩
    obtain rfl : received = fun _ => [] := hreceived
    exact Staged.start
  · intro p e q _ hstaged hstep
    exact hstaged.step hstep.1 hstep.2

/-- In a run whose steps all meet the condition every packet of a session is with the
session's agent or on its way to it, once and in order. -/
theorem faithful_of_calm (p : State α × Received α)
    (h : (receiving.restrict Calm).Reachable p) : Faithful p :=
  (staged_inductive.invariant p h).faithful

/-! ## Examples -/

instance decidableCalm : ∀ (p : State ℕ × Received ℕ) (e : Event ℕ), Decidable (Calm p e)
  | p, .receive id _ => inferInstanceAs (Decidable (_ → underway p.1 id = []))
  | p, .serve _ =>
    inferInstanceAs (Decidable (∀ r ∈ p.1.reports.head?, ∀ c ∈ p.1.creating, c.id ≠ r.id))
  | _, .created _ agent => inferInstanceAs (Decidable (agent.isSome = true))
  | _, .connect .. => inferInstanceAs (Decidable True)
  | _, .disconnect _ => inferInstanceAs (Decidable True)
  | _, .forward => inferInstanceAs (Decidable True)

/-- A session whose second packet comes when its agent is there. -/
theorem faithful_of_calm_second : ∃ p : State ℕ × Received ℕ,
    delivered p.1 1 = [10, 11] ∧ Faithful p := by
  obtain ⟨p, hp, hdelivered⟩ := TSys.reachable_of_exec
    (TSys.restrictExec_step (C := Calm) (T := receiving) (TSys.observeExec_step exec_step))
    (s := (State.start, fun _ => []))
    (l := [.connect 1 7 "10.0.0.1", .receive 1 10, .serve 20, .serve 20, .created 0 (some 30),
      .forward, .receive 1 11])
    (p := fun p => delivered p.1 1 == [10, 11]) ⟨rfl, rfl⟩ (by decide +kernel)
  exact ⟨p, beq_iff_eq.mp hdelivered, faithful_of_calm p hp⟩

/-- The watchdog serves a session's second packet while it waits for the agent. -/
theorem packet_dropped : ∃ p : State ℕ × Received ℕ, receiving.Reachable p ∧ ¬Faithful p := by
  obtain ⟨p, hp, hlost⟩ := TSys.reachable_of_exec
    (T := receiving) (TSys.observeExec_step exec_step)
    (s := ((State.start : State ℕ), fun _ => []))
    (l := [.connect 1 7 "10.0.0.1", .receive 1 10, .receive 1 11, .serve 20, .serve 20, .serve 21,
      .created 0 (some 30)])
    (p := fun p => delivered p.1 1 ++ underway p.1 1 == [10] && p.2 1 == [10, 11]) ⟨rfl, rfl⟩
    (by decide +kernel)
  obtain ⟨hkept, hread⟩ := Bool.and_eq_true_iff.mp hlost
  refine ⟨p, hp, ?_⟩
  intro hfaithful
  have hall := hfaithful 1
  rw [beq_iff_eq.mp hkept, beq_iff_eq.mp hread] at hall
  exact absurd hall (by decide)

end Watchdog

end DnServer.Bullfight
