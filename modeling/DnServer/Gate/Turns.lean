import DnServer.Gate.Frames
import DnServer.Gate.Polling

/-!
# Turns of the gate

The gate as its messages drive it, with a record of each slot's connection: the bytes that
were read, those of the first read, and those that were kept of them.

* `Server.cb_callback`: a callback polls, and takes a turn with the slot that the poll gives
  out: the header is pulled, the data behind it when the header is there, and the slot is
  yielded.
* `Pool.Sound.turn_apart`: a turn leaves the ring sound, and spares every other slot, since a
  pull allocates in the ring for its own connection and closes only what stands in its way.
* `Server.Recorded.step`: so what a turn keeps of its slot, and a poll of any, holds of every
  slot and its record in every run. What it is that they keep is the caller's `P`.
-/

namespace DnServer.Gate

open DnServer.Lib

/-! ## Messages to the gate -/

/-- A message to the gate. -/
inductive ServerEvent
  /-- `PTYPE_RESPONSE`: what is polled, and what the reads for the header and the data give. -/
  | response (wait : Option (List PollEvent)) (env env' : List ReadResult)
  /-- `PTYPE_CLIENT`: the id, and the bytes behind it. -/
  | client (uid : ℤ) (data : List UInt8) (env : List WriteResult)
  | kick (uid : ℤ)
  | forward (uid : ℤ) (agentaddr clientaddr : ℕ)
  | broker (handle : ℕ)
  deriving DecidableEq, Repr

namespace Server

/-- `_cb` and `_ctrl`. -/
def exec (self : Server) : ServerEvent → Option (Server × List Effect)
  | .response wait env env' => self._cb wait env env'
  | .client uid data env =>
    if data = [] then some (self, [])
    else
      match self.gate._id_to_agent uid with
      | some conn =>
        (self.pool.exec (.push conn data env)).map fun pool => ({ self with pool := pool }, [])
      | none => some (self, [])
  | .kick uid =>
    match self.gate._id_to_agent uid with
    | some conn =>
      (self.pool.exec (.close_client conn)).map fun pool => ({ self with pool := pool }, [])
    | none => some (self, [])
  | .forward uid agentaddr clientaddr =>
    some ({ self with gate := self.gate._forward_agent uid agentaddr clientaddr }, [])
  | .broker handle => some ({ self with broker := handle }, [])

/-- The gate after a message. -/
def next (self : Server) (e : ServerEvent) : Option Server := (self.exec e).map Prod.fst

/-- The gate for `max` connections, with the messages in any order. -/
def system (max : ℕ) (buffer_size header_size : ℤ) : TSys Server ServerEvent where
  init self := self.header_size = header_size ∧ GateState.gate_init max = some self.gate ∧
    self.pool = Pool.mread_create max buffer_size
  step self e self' := self.next e = some self'

end Server

/-! ## The record of a slot -/

/-- Headers are of two bytes or four. -/
def HeaderSize (header_size : ℤ) : Prop := header_size = 2 ∨ header_size = 4

theorem HeaderSize.le {header_size : ℤ} (h : HeaderSize header_size) :
    0 ≤ header_size ∧ header_size ≤ 2147483628 := by
  rcases h with rfl | rfl <;> decide

/-- What a read brings to a slot: the bytes, and what is kept of them. -/
structure Catch where
  raw : List UInt8
  kept : List UInt8

/-- No read. -/
def Catch.nothing : Catch := ⟨[], []⟩

def Pool.caught (self : Pool) (id : ℕ) : Option ReadResult → Catch
  | some (.bytes data) => ⟨data, self.stripped id data⟩
  | _ => .nothing

/-- What is read in a callback, for the header and for the data, and whether it is the first of its
connection. -/
structure Reads where
  first : Bool
  header : Catch
  data : Catch

def Reads.nothing : Reads := ⟨false, .nothing, .nothing⟩

/-- What came on a connection, with the first read and altogether, and what was kept of it. -/
structure Traffic where
  first : List UInt8
  received : List UInt8
  kept : List UInt8
  deriving DecidableEq, Repr

/-- Nothing yet. -/
def Traffic.blank : Traffic := ⟨[], [], []⟩

def Traffic.add (t : Traffic) (r : Reads) : Traffic where
  first := if r.first then r.header.raw else t.first
  received := t.received ++ r.header.raw ++ r.data.raw
  kept := t.kept ++ r.header.kept ++ r.data.kept

/-- The length a header says. -/
def Pool.lengthAt (self : Pool) (header_size plen : ℤ) : ℤ :=
  Server.bigEndian header_size fun k => self.rb.mem (plen.toNat + k)

/-- What a turn of slot `i` reads. -/
def Pool.reads (self : Pool) (header_size : ℤ) (i : ℕ) (env env' : List ReadResult) : Reads where
  first := (self.sockets i).status = .FIRST_POLLIN
  header := self.caught i (self.hears header_size env)
  data :=
    match self.mread_pull header_size env with
    | some (p, some plen) => p.caught i (p.hears (p.lengthAt header_size plen) env')
    | _ => .nothing

/-- The slot a callback pulls from, and what it reads. -/
def Pool.catches (self : Pool) (header_size : ℤ) (wait : Option (List PollEvent))
    (env env' : List ReadResult) : Option (ℕ × Reads) :=
  match self.mread_poll wait with
  | some (p, some _) => p.active.map fun i => (i, p.reads header_size i env env')
  | _ => none

/-- The records, when one slot was pulled from. -/
def record (caught : Option (ℕ × Reads)) (tr : ℕ → Traffic) : ℕ → Traffic :=
  match caught with
  | some (i, r) => Function.update tr i ((tr i).add r)
  | none => tr

namespace Server

def catches (self : Server) : ServerEvent → Option (ℕ × Reads)
  | .response wait env env' => self.pool.catches self.header_size wait env env'
  | _ => none

/-- A slot that is free has no record. -/
def note (self : Server) (e : ServerEvent) (self' : Server) (tr : ℕ → Traffic) : ℕ → Traffic :=
  fun i =>
    if (self'.pool.sockets i).status = .INVALID then .blank
    else record (self.catches e) tr i

/-- The gate with its records. -/
def observed (max : ℕ) (buffer_size header_size : ℤ) : TSys (Server × (ℕ → Traffic)) ServerEvent :=
  (system max buffer_size header_size).observe (fun _ _ => .blank) note

end Server

namespace Pool

/-! ## What a callback does to the pool -/

/-- A header is pulled and, when it is there, the data; then the slot is yielded. -/
inductive Turn (header_size : ℤ) (p : Pool) (env env' : List ReadResult) : Pool → Prop
  | missed {q p' : Pool} {b : Bool} : p.mread_pull header_size env = some (q, none) →
      q.mread_closed = some (p', b) → Turn header_size p env env' p'
  | held {q q' p' : Pool} {plen : ℤ} {b : Bool} :
      p.mread_pull header_size env = some (q, some plen) →
      q.mread_pull (q.lengthAt header_size plen) env' = some (q', none) →
      q'.mread_closed = some (p', b) → Turn header_size p env env' p'
  | sent {q q' p' : Pool} {plen data : ℤ} : p.mread_pull header_size env = some (q, some plen) →
      q.mread_pull (q.lengthAt header_size plen) env' = some (q', some data) →
      q'.mread_yield = some p' → Turn header_size p env env' p'

/-- A callback polls first. -/
inductive Callback (header_size : ℤ) (p : Pool) (wait : Option (List PollEvent))
    (env env' : List ReadResult) : Pool → Prop
  | idle {p' : Pool} : p.mread_poll wait = some (p', none) → Callback header_size p wait env env' p'
  | turn {q p' : Pool} {k : ℕ} : p.mread_poll wait = some (q, some k) →
      q.Turn header_size env env' p' → Callback header_size p wait env env' p'

end Pool

namespace Server

variable {self self' : Server} {id : ℤ} {plen : ℕ} {wait : Option (List PollEvent)}
  {env env' : List ReadResult} {effects : List Effect}

theorem missed_closed (h : self.missed id = some (self', effects)) :
    (∃ b, self.pool.mread_closed = some (self'.pool, b)) ∧ self'.header_size = self.header_size := by
  unfold missed at h
  obtain ⟨⟨pool, b⟩, hclosed, h⟩ := Option.bind_eq_some_iff.mp h
  cases b with
  | false =>
    cases h
    exact ⟨⟨false, hclosed⟩, rfl⟩
  | true =>
    simp only at h
    split at h
    · obtain ⟨gate, -, heq⟩ := Option.map_eq_some_iff.mp h
      cases heq
      exact ⟨⟨true, hclosed⟩, rfl⟩
    · cases h
      exact ⟨⟨true, hclosed⟩, rfl⟩

/-- From the length on. -/
theorem frame_turn (self : Server) {p : Pool} {ptr : ℤ}
    (hpull : p.mread_pull self.header_size env = some (self.pool, some ptr))
    (h : self.frame id ptr.toNat env' = some (self', effects)) :
    p.Turn self.header_size env env' self'.pool ∧ self'.header_size = self.header_size := by
  unfold frame at h
  obtain ⟨⟨q, r⟩, hpull', h⟩ := Option.bind_eq_some_iff.mp h
  cases r with
  | none =>
    obtain ⟨⟨s, rest⟩, hmissed, heq⟩ := Option.map_eq_some_iff.mp h
    cases heq
    obtain ⟨⟨b, hclosed⟩, hsize⟩ := missed_closed hmissed
    exact ⟨.held hpull hpull' hclosed, hsize⟩
  | some data =>
    obtain ⟨p', hyield, heq⟩ := Option.map_eq_some_iff.mp h
    cases heq
    exact ⟨.sent hpull hpull' hyield, rfl⟩

/-- A callback polls, and takes a turn with the slot it is given. -/
theorem cb_callback (h : self._cb wait env env' = some (self', effects)) :
    self.pool.Callback self.header_size wait env env' self'.pool ∧
      self'.header_size = self.header_size := by
  unfold _cb at h
  obtain ⟨⟨p, r⟩, hpoll, h⟩ := Option.bind_eq_some_iff.mp h
  cases r with
  | none =>
    cases h
    exact ⟨.idle hpoll, rfl⟩
  | some k =>
    obtain ⟨⟨q, r⟩, hpull, h⟩ := Option.bind_eq_some_iff.mp h
    cases r with
    | none =>
      obtain ⟨⟨b, hclosed⟩, hsize⟩ := missed_closed h
      exact ⟨.turn hpoll (.missed hpull hclosed), hsize⟩
    | some ptr =>
      simp only at h
      split at h
      · obtain ⟨r, -, h⟩ := Option.bind_eq_some_iff.mp h
        obtain ⟨⟨s, rest⟩, hframe, heq⟩ := Option.map_eq_some_iff.mp h
        cases heq
        obtain ⟨hturn, hsize⟩ := frame_turn { self with pool := q, gate := r.1 } hpull hframe
        exact ⟨.turn hpoll hturn, hsize⟩
      · obtain ⟨hturn, hsize⟩ := frame_turn { self with pool := q } hpull h
        exact ⟨.turn hpoll hturn, hsize⟩

end Server

namespace Pool

variable {self self' : Pool} {l l' : List ℕ} {id i j : ℕ} {header_size : ℤ}
  {wait : Option (List PollEvent)} {env env' : List ReadResult} {t : Traffic}

/-! ## The slot that is served -/

/-- The slot is to be served: it is the active one, and was polled. -/
structure Polling (p : Pool) (i : ℕ) : Prop where
  active : p.active = some i
  isOpen : (p.sockets i).status.isOpen = true
  skip : p.skip = 0
  polled : (p.sockets i).status ≠ .SUSPEND
  met : (p.sockets i).status ≠ .CONNECTED

/-- The slot that a poll gives out is new, closed, or to be served. -/
theorem Sound.poll_active {k : ℕ} (h : self.Sound l)
    (hrun : self.mread_poll wait = some (self', some k)) :
    self'.active = none ∨ ∃ i, self'.active = some i ∧
      ((self'.sockets i).status = .CLOSED ∨ self'.Polling i) := by
  rcases h.poll_cases hrun with ⟨i, hgoes, -, rfl⟩ | ⟨-, hpolled, hskip⟩
  · have hread : (({ self with skip := 0 } : Pool).sockets i).status = .READ := hgoes.2
    refine .inr ⟨i, hgoes.1, .inr ⟨hgoes.1, ?_, rfl, ?_, ?_⟩⟩
    · rw [hread]
      rfl
    · rw [hread]
      exact nofun
    · rw [hread]
      exact nofun
  · cases hpolled with
    | accepted hactive _ => exact .inl hactive
    | reported hactive hclosed _ => exact .inr ⟨k, hactive, .inl hclosed⟩
    | @ready _ q hactive _ hopen heq =>
      have hsocket : self'.sockets k = _ := (congrFun heq k).trans (Function.update_self ..)
      refine .inr ⟨k, hactive, .inr ⟨hactive, ?_, hskip, ?_, ?_⟩⟩
      all_goals rw [hsocket]
      · dsimp only
        split <;> rfl
      · dsimp only
        split <;> exact nofun
      · dsimp only
        split <;> exact nofun

/-- A closed slot has nothing to pull. -/
theorem Sound.pull_closed {size : ℤ} {r : Option ℤ} (h : self.Sound l)
    (hactive : self.active = some id) (hclosed : (self.sockets id).status = .CLOSED)
    (hrun : self.mread_pull size env = some (self', r)) :
    self' = self ∧ r = none ∧ self.hears size env = none := by
  have hread : self.ringbuffer_read id size = some (0, none) := by
    unfold ringbuffer_read
    rw [(h.quiet id (by rw [hclosed]; rfl)).1]
  unfold mread_pull at hrun
  unfold hears
  rw [hactive] at hrun ⊢
  dsimp only at hrun ⊢
  rw [hread] at hrun ⊢
  simp only [Option.bind_some, hclosed] at hrun
  cases hrun
  refine ⟨rfl, rfl, ?_⟩
  rw [hclosed]
  exact if_neg (by rintro (hno | hno) <;> cases hno)

theorem Sound.closed_apart {b : Bool} (h : self.Sound l) (hactive : self.active = some id)
    (hrun : self.mread_closed = some (self', b)) :
    (∃ l', self.Leads l id self' l') ∧ self.Spared id self' ∧
      ((self.sockets id).status.isOpen = false → (self'.sockets id).status.isOpen = false) := by
  unfold Pool.mread_closed at hrun
  rw [hactive] at hrun
  dsimp only at hrun
  split at hrun
  · rename_i hclosed
    obtain ⟨p, hyield, heq⟩ := Option.map_eq_some_iff.mp hrun
    cases heq
    obtain ⟨p', hp', hleads⟩ := h.yield hactive
    obtain rfl := Option.some.inj (hp'.symm.trans hyield)
    refine ⟨⟨l, hleads⟩, .of_set (yield_spared hactive hyield), fun _ => ?_⟩
    unfold mread_yield at hyield
    rw [hactive] at hyield
    obtain ⟨rb, -, hyield⟩ := Option.bind_eq_some_iff.mp hyield
    simp only [set_self, if_pos hclosed] at hyield
    cases hyield
    rw [set_self]
    rfl
  · cases hrun
    exact ⟨⟨l, .of_same h rfl fun _ => ⟨rfl, rfl⟩⟩, .refl _ _, fun hno => hno⟩

theorem reads_of_none {q : Pool} (h : self.mread_pull header_size env = some (q, none)) :
    (self.reads header_size i env env').data = .nothing := by
  unfold reads
  rw [h]

/-! ## Callbacks -/

theorem catches_of_some {q : Pool} {k : ℕ} (hpoll : self.mread_poll wait = some (q, some k)) :
    self.catches header_size wait env env' =
      q.active.map fun i => (i, q.reads header_size i env env') := by
  unfold catches
  rw [hpoll]

/-- Without a slot a turn does nothing. -/
theorem turn_idle (hactive : self.active = none) (hturn : self.Turn header_size env env' self') :
    self' = self := by
  cases hturn with
  | missed hpull hclosed =>
    obtain ⟨rfl, -⟩ := pull_idle hactive hpull
    unfold Pool.mread_closed at hclosed
    rw [hactive] at hclosed
    cases hclosed
    rfl
  | held hpull => cases (pull_idle hactive hpull).2
  | sent hpull => cases (pull_idle hactive hpull).2

/-- A slot that is closed is given up. -/
theorem Sound.turn_closed (h : self.Sound l) (hactive : self.active = some i)
    (hclosed : (self.sockets i).status = .CLOSED)
    (hturn : self.Turn header_size env env' self') :
    (∃ l', self.Leads l i self' l') ∧ self.Spared i self' ∧
      (self'.sockets i).status.isOpen = false ∧
      self.reads header_size i env env' = .nothing := by
  cases hturn with
  | @missed q _ b hpull hrun =>
    have hdata : (self.reads header_size i env env').data = .nothing := reads_of_none hpull
    obtain ⟨rfl, -, hhears⟩ := h.pull_closed hactive hclosed hpull
    obtain ⟨hleads, hspared, hkept⟩ := h.closed_apart hactive hrun
    have hheader : (q.reads header_size i env env').header = .nothing := by
      show q.caught i (q.hears header_size env) = _
      rw [hhears]
      rfl
    have hfirst : (q.reads header_size i env env').first = false := by
      refine decide_eq_false ?_
      rw [hclosed]
      exact nofun
    refine ⟨hleads, hspared, hkept (by rw [hclosed]; rfl), ?_⟩
    generalize q.reads header_size i env env' = r at hdata hheader hfirst ⊢
    obtain ⟨f, c, d⟩ := r
    subst hdata hheader hfirst
    rfl
  | held hpull => cases (h.pull_closed hactive hclosed hpull).2.1
  | sent hpull => cases (h.pull_closed hactive hclosed hpull).2.1

theorem record_nothing (tr : ℕ → Traffic) : record (some (i, .nothing)) tr = tr := by
  have hadd : (tr i).add .nothing = tr i := by
    unfold Traffic.add Reads.nothing Catch.nothing
    simp only [List.append_nil, Bool.false_eq_true, if_false]
  unfold record
  dsimp only
  rw [hadd, Function.update_eq_self]

/-! ## What is kept of a slot -/

/-- What holds of a slot and its record when the slot is new, and as long as nothing is pulled from
it. -/
structure Kept (P : Pool → Traffic → ℕ → Prop) : Prop where
  fresh : ∀ {p : Pool} {i : ℕ}, (p.sockets i).node = none → P p .blank i
  same : ∀ {p p' : Pool} {t : Traffic} {i : ℕ}, P p t i →
    ((p'.sockets i).status.isOpen = true → (p'.sockets i).status = (p.sockets i).status ∧
      (p'.sockets i).node = (p.sockets i).node) → P p' t i
  polled : ∀ {p p' : Pool} {t : Traffic} {i : ℕ}, P p t i →
    (p'.sockets i).node = (p.sockets i).node → ((p'.sockets i).status = (p.sockets i).status ∨
      (p'.sockets i).status = .POLLIN ∨
      (p.sockets i).status = .CONNECTED ∧ (p'.sockets i).status = .FIRST_POLLIN) → P p' t i

section Kept

variable {P : Pool → Traffic → ℕ → Prop}

theorem Kept.closed (hP : Kept P) (h : P self t i)
    (hclosed : (self'.sockets i).status.isOpen = false) : P self' t i :=
  hP.same h fun hopen => absurd (hclosed.symm.trans hopen) nofun

/-- It holds of the other slots still. -/
theorem Kept.spared (hP : Kept P) (h : P self t j) (hspared : self.Spared id self')
    (hne : j ≠ id) : P self' t j := by
  refine hP.same h fun hopen => ?_
  have hsocket : self'.sockets j = self.sockets j := by
    rcases hspared j hne with heq | hno
    · exact heq
    · rw [hopen] at hno
      cases hno
  exact ⟨by rw [hsocket], by rw [hsocket]⟩

/-- It holds of a slot whose socket has settled, or is polled then. -/
theorem Kept.settled (hP : Kept P) {s : Socket} (h : P self t i)
    (hblank : (self.sockets i).status = .INVALID → t = .blank)
    (hsettled : (self.sockets i).Settled s)
    (hopen : (self'.sockets i).status.isOpen = true → s.status.isOpen = true)
    (hnode : (self'.sockets i).node = s.node)
    (hstatus : (self'.sockets i).status = s.status ∨ (self'.sockets i).status = .POLLIN ∨
      s.status = .CONNECTED ∧ (self'.sockets i).status = .FIRST_POLLIN) : P self' t i := by
  by_cases ho : (self'.sockets i).status.isOpen = true
  · rcases hsettled.of_open (hopen ho) with ⟨hs, hn⟩ | ⟨hinvalid, -, hn⟩
    · rw [hs] at hstatus
      exact hP.polled h (hnode.trans hn) hstatus
    · obtain rfl := hblank hinvalid
      exact hP.fresh (hnode.trans hn)
  · exact hP.closed h (Bool.eq_false_iff.mpr ho)

/-- A poll keeps it. -/
theorem Kept.poll (hP : Kept P) {r : Option ℕ} (h : P self t i) (hl : self.Sound l)
    (hblank : (self.sockets i).status = .INVALID → t = .blank)
    (hrun : self.mread_poll wait = some (self', r)) : P self' t i := by
  rcases hl.poll_cases hrun with ⟨j, -, -, rfl⟩ | ⟨-, hpolled, -⟩
  · exact hP.same h fun _ => ⟨rfl, rfl⟩
  · have hsame : (self.sockets i).Settled (self'.sockets i) → P self' t i := fun hs =>
      hP.settled h hblank hs (fun ho => ho) rfl (.inl rfl)
    cases hpolled with
    | idle _ hs => exact hsame (hs i)
    | accepted _ hs => exact hsame (hs i)
    | reported _ _ hs => exact hsame (hs i)
    | @ready k q _ hs hopen heq =>
      by_cases hi : i = k
      · subst hi
        have hsocket : self'.sockets i = _ := (congrFun heq i).trans (Function.update_self ..)
        refine hP.settled h hblank (hs i) (fun _ => hopen) (by rw [hsocket]) ?_
        rw [hsocket]
        by_cases hc : (q i).status = .CONNECTED
        · exact .inr (.inr ⟨hc, if_pos hc⟩)
        · exact .inr (.inl (if_neg hc))
      · have hsocket : self'.sockets i = q i := (congrFun heq i).trans (Function.update_of_ne hi ..)
        exact hP.settled h hblank (hs i) (by rw [hsocket]; exact fun ho => ho)
          (by rw [hsocket]) (.inl (by rw [hsocket]))

/-- A callback keeps it of all slots, when its turn does. -/
theorem Kept.callback (hP : Kept P) {tr : ℕ → Traffic} (h : self.Sound l)
    (hall : ∀ i, P self (tr i) i) (hblank : ∀ i, (self.sockets i).status = .INVALID → tr i = .blank)
    (hturn : ∀ q k i, self.mread_poll wait = some (q, some k) → q.Sound l → q.Polling i →
      P q (tr i) i → q.Turn header_size env env' self' →
      (∃ l', q.Leads l i self' l' ∧ q.Spared i self') ∧
        P self' ((tr i).add (q.reads header_size i env env')) i)
    (hcallback : self.Callback header_size wait env env' self') :
    (∃ l', self'.Sound l') ∧
      ∀ i, P self' (record (self.catches header_size wait env env') tr i) i := by
  cases hcallback with
  | idle hpoll =>
    have hnone : self.catches header_size wait env env' = none := by
      unfold catches
      rw [hpoll]
    rw [hnone]
    exact ⟨⟨l, h.poll hpoll⟩, fun i => hP.poll (hall i) h (hblank i) hpoll⟩
  | @turn q _ k hpoll hrun =>
    have hq := h.poll hpoll
    have hqall : ∀ i, P q (tr i) i := fun i => hP.poll (hall i) h (hblank i) hpoll
    rw [catches_of_some hpoll]
    rcases h.poll_active hpoll with hnone | ⟨i, hactive, hclosed | hpolling⟩
    · -- a client has come, and is not read from yet
      obtain rfl := turn_idle hnone hrun
      rw [hnone]
      exact ⟨⟨l, hq⟩, hqall⟩
    · obtain ⟨⟨l', hleads⟩, hspared, hshut, hnothing⟩ := hq.turn_closed hactive hclosed hrun
      refine ⟨⟨l', hleads.sound⟩, fun j => ?_⟩
      rw [hactive, Option.map_some, hnothing, record_nothing]
      by_cases hj : j = i
      · subst hj
        exact hP.closed (hqall j) hshut
      · exact hP.spared (hqall j) hspared hj
    · obtain ⟨⟨l', hleads, hspared⟩, hserved⟩ := hturn q k i hpoll hq hpolling (hqall i) hrun
      refine ⟨⟨l', hleads.sound⟩, fun j => ?_⟩
      rw [hactive, Option.map_some]
      unfold record
      dsimp only
      by_cases hj : j = i
      · subst hj
        rw [Function.update_self]
        exact hserved
      · rw [Function.update_of_ne hj]
        exact hP.spared (hqall j) hspared hj

theorem push_same {s : Socket} {buffer : List UInt8} {env : List WriteResult}
    (h : (s.mread_push buffer env).1.status.isOpen = true) :
    (s.mread_push buffer env).1.status = s.status ∧ (s.mread_push buffer env).1.node = s.node := by
  have hon : ∀ u : Socket, u.status = s.status → u.node = s.node →
      u.turn_on.status = s.status ∧ u.turn_on.node = s.node := fun u hs hn =>
    ⟨Socket.turn_on_spec.2.trans hs, Socket.turn_on_chains.1.trans hn⟩
  revert h
  unfold Socket.mread_push
  split
  · exact fun _ => ⟨rfl, rfl⟩
  · split
    · split
      · intro h
        rw [Socket.try_close_spec.2] at h
        cases h
      · exact fun _ => ⟨rfl, rfl⟩
      · exact fun _ => hon _ rfl rfl
    · exact fun _ => hon _ rfl rfl

theorem close_client_same {s : Socket} (h : s.mread_close_client.1.status.isOpen = true) :
    s.mread_close_client.1.status = s.status ∧ s.mread_close_client.1.node = s.node := by
  unfold Socket.mread_close_client at h ⊢
  split at h
  · rename_i hshut
    rw [if_pos hshut]
    exact ⟨rfl, rfl⟩
  · rw [Socket.try_close_spec.2] at h
    cases h

/-- So does what replaces a socket. -/
theorem Kept.settle (hP : Kept P) {k : ℕ} {r : Socket × Bool} (h : P self t i)
    (hr : r.1.status.isOpen = true →
      r.1.status = (self.sockets k).status ∧ r.1.node = (self.sockets k).node) :
    P (self.settle k r) t i := by
  have hsame : ((self.set k r.1).sockets i).status.isOpen = true →
      ((self.set k r.1).sockets i).status = (self.sockets i).status ∧
        ((self.set k r.1).sockets i).node = (self.sockets i).node := by
    by_cases hi : i = k
    · subst hi
      rw [set_self]
      exact hr
    · rw [set_of_ne _ hi]
      exact fun _ => ⟨rfl, rfl⟩
  refine hP.same h fun hopen => ?_
  exact hsame hopen

end Kept

end Pool

namespace Server

/-! ## Runs -/

variable {e : ServerEvent} {s s' : Server × (ℕ → Traffic)} {max : ℕ} {buffer_size header_size : ℤ}
  {P : Pool → Traffic → ℕ → Prop}

/-- It holds of every slot. -/
structure Recorded (P : Pool → Traffic → ℕ → Prop) (header_size : ℤ)
    (s : Server × (ℕ → Traffic)) : Prop where
  size : s.1.header_size = header_size
  sound : ∃ l, s.1.pool.Sound l
  all : ∀ i, P s.1.pool (s.2 i) i
  blank : ∀ i, (s.1.pool.sockets i).status = .INVALID → s.2 i = .blank

/-- What a step records of a slot that is in use. -/
theorem note_used {i : ℕ}
    (hstep : (observed max buffer_size header_size).step s e s')
    (hi : (s'.1.pool.sockets i).status ≠ .INVALID) :
    s'.2 i = record (s.1.catches e) s.2 i := by
  rw [hstep.2]
  exact if_neg hi

/-- A message keeps it, when the turn of the callback does. -/
theorem Recorded.exec (hP : Pool.Kept P) {effects : List Effect} {self' : Server}
    (h : Recorded P header_size s)
    (hturn : ∀ wait env env' l q k i, e = .response wait env env' →
      s.1.pool.mread_poll wait = some (q, some k) → q.Sound l → q.Polling i → P q (s.2 i) i →
      q.Turn header_size env env' self'.pool →
      (∃ l', q.Leads l i self'.pool l' ∧ q.Spared i self'.pool) ∧
        P self'.pool ((s.2 i).add (q.reads header_size i env env')) i)
    (hrun : s.1.exec e = some (self', effects)) :
    self'.header_size = header_size ∧ (∃ l, self'.pool.Sound l) ∧
      ∀ i, P self'.pool (record (s.1.catches e) s.2 i) i := by
  obtain ⟨l, hl⟩ := h.sound
  cases e with
  | response wait env env' =>
    obtain ⟨hcallback, hsize⟩ := cb_callback hrun
    rw [h.size] at hcallback hsize
    refine ⟨hsize, ?_⟩
    show _ ∧ ∀ i, P self'.pool
      (record (s.1.pool.catches s.1.header_size wait env env') s.2 i) i
    rw [h.size]
    exact hP.callback hl h.all h.blank
      (fun q k i hpoll hq hpolling hi hrun => hturn _ _ _ _ q k i rfl hpoll hq hpolling hi hrun)
      hcallback
  | client uid data env =>
    simp only [Server.exec] at hrun
    split at hrun
    · cases hrun
      exact ⟨h.size, h.sound, h.all⟩
    · split at hrun
      · rename_i conn _
        obtain ⟨p, hp, heq⟩ := Option.map_eq_some_iff.mp hrun
        cases heq
        have hfits : s.1.pool.Fitting (.push conn data env) := trivial
        refine ⟨h.size, hl.exec hfits hp, fun i => ?_⟩
        simp only [Pool.exec] at hp
        split at hp
        · obtain rfl := Option.some.inj hp
          exact hP.settle (h.all i) Pool.push_same
        · cases hp
      · cases hrun
        exact ⟨h.size, h.sound, h.all⟩
  | kick uid =>
    simp only [Server.exec] at hrun
    split at hrun
    · rename_i conn _
      obtain ⟨p, hp, heq⟩ := Option.map_eq_some_iff.mp hrun
      cases heq
      have hfits : s.1.pool.Fitting (.close_client conn) := trivial
      refine ⟨h.size, hl.exec hfits hp, fun i => ?_⟩
      simp only [Pool.exec] at hp
      split at hp
      · obtain rfl := Option.some.inj hp
        exact hP.settle (h.all i) Pool.close_client_same
      · cases hp
    · cases hrun
      exact ⟨h.size, h.sound, h.all⟩
  | forward uid agentaddr clientaddr =>
    cases hrun
    exact ⟨h.size, h.sound, h.all⟩
  | broker handle =>
    cases hrun
    exact ⟨h.size, h.sound, h.all⟩

/-- **Step lemma.** -/
theorem Recorded.step (hP : Pool.Kept P) (h : Recorded P header_size s)
    (hturn : ∀ wait env env' l q k i p', e = .response wait env env' →
      s.1.pool.mread_poll wait = some (q, some k) → q.Sound l → q.Polling i → P q (s.2 i) i →
      q.Turn header_size env env' p' → (∃ l', q.Leads l i p' l' ∧ q.Spared i p') ∧
        P p' ((s.2 i).add (q.reads header_size i env env')) i)
    (hstep : (observed max buffer_size header_size).step s e s') : Recorded P header_size s' := by
  obtain ⟨⟨self', effects⟩, hexec, heq⟩ := Option.map_eq_some_iff.mp hstep.1
  change self' = s'.1 at heq
  subst heq
  obtain ⟨hsize, ⟨l, hl⟩, hall⟩ := h.exec hP
    (fun wait env env' l q k i he hpoll hq hpolling hi hrun =>
      hturn wait env env' l q k i _ he hpoll hq hpolling hi hrun) hexec
  have hblank : ∀ i, (s'.1.pool.sockets i).status = .INVALID → s'.2 i = .blank := by
    intro i hi
    rw [hstep.2]
    exact if_pos hi
  refine ⟨hsize, ⟨l, hl⟩, fun i => ?_, hblank⟩
  by_cases hi : (s'.1.pool.sockets i).status = .INVALID
  · rw [hblank i hi]
    exact hP.fresh (hl.quiet i (by rw [hi]; rfl)).1
  · rw [note_used hstep hi]
    exact hall i

/-- At the start it holds. -/
theorem Recorded.init (hP : Pool.Kept P) (hmax : max < 2147483648)
    (hbuffer : buffer_size ≤ 2147483644) (h : (observed max buffer_size header_size).init s) :
    Recorded P header_size s := by
  obtain ⟨⟨hsize, hgate, hpool⟩, htr⟩ := h
  have hpos : 0 < max := by
    by_contra hno
    obtain rfl : max = 0 := by omega
    cases hgate
  refine ⟨hsize, ⟨[0], ?_⟩, fun i => ?_, fun i _ => by rw [htr]⟩
  · rw [hpool]
    exact .create hpos hmax hbuffer
  · rw [htr, hpool]
    exact hP.fresh rfl

/-! ## A run -/

/-- A gate for one connection. -/
def start : Server :=
  ⟨⟨0, 1, 1, fun _ => none, fun _ => ⟨0, 0, 0⟩⟩, Pool.mread_create 1 4096, 2, 7, 0⟩

/-- The connection comes. -/
def accepted : ServerEvent := .response (some [.listen (.connected 5 true)]) [] []

/-- Bytes come, to the read for the header or to the one for the data. -/
def arrived (data data' : List (List UInt8)) : ServerEvent :=
  .response (some [.socket 0 true none]) (data.map .bytes) (data'.map .bytes)

end Server

end DnServer.Gate
