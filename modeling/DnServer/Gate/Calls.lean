import DnServer.Gate.Ownership

/-!
# The calls that `mread.c` makes on the ring

Each operation of the pool is a sequence of calls on the ring. Here they are listed beside
the functions that make them, each with the ring it is made on, and lead from the ring
before the operation to the ring after it.
-/

namespace DnServer.Gate

open DnServer.Lib

/-! ## The calls of an operation -/

/-- A call on the ring. Two things `mread.c` does to a block itself: it enters the owner, and
has `read` and `memcpy` put bytes behind the header. -/
inductive RingCall
  | alloc (size : ℤ)
  | shrink (blk : ℕ) (size : ℤ)
  | link (head next : ℕ)
  | copy (blk : ℕ) (skip : ℤ) (dst : ℕ)
  | free (blk : Option ℕ)
  | yield (blk : ℕ) (skip : ℤ)
  | collect
  | own (blk : ℕ) (id : ℤ)
  | write (blk : ℕ) (data : List UInt8)
  deriving DecidableEq, Repr

/-- The ring after the call, with the block that is returned. -/
def RingCall.exec (rb : Ring) : RingCall → Option (Ring × Option ℕ)
  | .alloc size => rb.ringbuffer_alloc size
  | .shrink blk size => (rb.ringbuffer_shrink blk size).map fun rb => (rb, none)
  | .link head next => (rb.ringbuffer_link head next).map fun rb => (rb, none)
  | .copy blk skip dst => (rb.ringbuffer_copy blk skip dst).map fun rb => (rb, none)
  | .free blk => (rb.ringbuffer_free blk).map fun rb => (rb, none)
  | .yield blk skip => rb.ringbuffer_yield blk skip
  | .collect => rb.ringbuffer_collect.map fun r => (r.1, none)
  | .own blk id => some (rb.setId blk id, none)
  | .write blk data => some ({ rb with mem := rb.mem.putBytes (blk + 16) data }, none)

namespace RingCall

variable {rb rb' : Ring} {blk dst : ℕ} {n : ℤ}

theorem exec_shrink (h : rb.ringbuffer_shrink blk n = some rb') :
    exec rb (.shrink blk n) = some (rb', none) := by
  rw [exec, h, Option.map_some]

theorem exec_link (h : rb.ringbuffer_link blk dst = some rb') :
    exec rb (.link blk dst) = some (rb', none) := by
  rw [exec, h, Option.map_some]

theorem exec_copy (h : rb.ringbuffer_copy blk n dst = some rb') :
    exec rb (.copy blk n dst) = some (rb', none) := by
  rw [exec, h, Option.map_some]

theorem exec_free {p : Option ℕ} (h : rb.ringbuffer_free p = some rb') :
    exec rb (.free p) = some (rb', none) := by
  rw [exec, h, Option.map_some]

theorem exec_collect {r : Ring × ℤ} (h : rb.ringbuffer_collect = some r) :
    exec rb .collect = some (r.1, none) := by
  rw [exec, h, Option.map_some]

end RingCall

namespace Pool

/-- The calls of `_close_active`, each with the ring it is made on. -/
def closeCalls (self : Pool) (id : ℕ) : List (Ring × RingCall) :=
  (self.rb, .free (self.sockets id).temp) ::
    match self.rb.ringbuffer_free (self.sockets id).temp with
    | some rb => [(rb, .free (self.sockets id).node)]
    | none => []

/-- The calls of `_link_node`. -/
def linkCalls (self : Pool) (id blk : ℕ) : List (Ring × RingCall) :=
  match (self.sockets id).node with
  | some node => [(self.rb, .link node blk)]
  | none => [(self.rb, .own blk id)]

/-- The calls of the loop that makes room. -/
def allocateCalls (self : Pool) (id : ℕ) (size : ℤ) : ℕ → List (Ring × RingCall)
  | 0 => []
  | fuel + 1 =>
    (self.rb, .alloc size) ::
      match self.rb.ringbuffer_alloc size with
      | some (rb, none) =>
        (rb, .collect) ::
          match rb.ringbuffer_collect with
          | some r =>
            match ({ self with rb := r.1 }).force_close_client r.2 with
            | some self => if r.2 = id then [] else self.allocateCalls id size fuel
            | none => []
          | none => []
      | _ => []

/-- The calls where the block is given back and the socket closed. -/
def dropCalls (self : Pool) (id blk : ℕ) : List (Ring × RingCall) :=
  (self.rb, .shrink blk 0) ::
    match self.rb.ringbuffer_shrink blk 0 with
    | some rb => ({ self with rb := rb }).closeCalls id
    | none => []

/-- The calls of the reading loop. -/
def fillCalls (self : Pool) (id blk : ℕ) (sz rd : ℤ) : List ReadResult → List (Ring × RingCall)
  | [] => [(self.rb, .shrink blk 0)]
  | .EINTR :: env => self.fillCalls id blk sz rd env
  | .EWOULDBLOCK :: _ => [(self.rb, .shrink blk 0)]
  | .failed :: _ => self.dropCalls id blk
  | .bytes data :: _ =>
    let data := data.take rd.toNat
    let mem := self.rb.mem.putBytes (blk + 16) data
    let httplen := if (self.sockets id).status = .FIRST_POLLIN then FindTGWHeader data else 0
    let rest := data.drop httplen
    let self' :=
      { self with
        rb := { self.rb with mem := if httplen = 0 then mem else mem.putBytes (blk + 16) rest } }
    (self.rb, .write blk data) ::
      (if httplen = 0 then [] else [({ self.rb with mem := mem }, .write blk rest)]) ++
      (if data = [] then self'.dropCalls id blk
      else if rest = [] then []
      else
        (self'.rb, .shrink blk rest.length) ::
          match self'.rb.ringbuffer_shrink blk rest.length with
          | some rb => if rest.length < sz then ({ self' with rb := rb }).linkCalls id blk else []
          | none => [])

/-- The calls behind the allocation of the block that is copied to. -/
def copyCalls (self : Pool) (id temp : ℕ) : List (Ring × RingCall) :=
  let rb := self.rb.setId temp id
  (self.rb, .own temp id) ::
    match (self.sockets id).temp with
    | none =>
      match (self.sockets id).node with
      | some node => [(rb, .copy node self.skip temp)]
      | none => []
    | some old =>
      (rb, .link temp old) ::
        match rb.ringbuffer_link temp old, (self.sockets id).node with
        | some rb, some node => [(rb, .copy node self.skip temp)]
        | _, _ => []

/-- The calls of the end of `mread_pull`. -/
def gatherCalls (self : Pool) (id : ℕ) (size : ℤ) : List (Ring × RingCall) :=
  match self.ringbuffer_read id size with
  | some (real_rd, none) =>
    if real_rd = size then
      self.allocateCalls id size (self.rb.size + 1) ++
        match self.allocate id size (self.rb.size + 1) with
        | some (self, some temp) => self.copyCalls id temp
        | _ => []
    else []
  | _ => []

/-- The calls of the middle of `mread_pull`. -/
def receiveCalls (self : Pool) (id : ℕ) (size sz rd : ℤ) (env : List ReadResult) :
    List (Ring × RingCall) :=
  self.allocateCalls id rd (self.rb.size + 1) ++
    match self.allocate id rd (self.rb.size + 1) with
    | some (self, some blk) =>
      self.fillCalls id blk sz rd env ++
        match self.fill id blk sz rd env with
        | some (self, true) =>
          self.linkCalls id blk ++
            match self.link_node id blk with
            | some self => self.gatherCalls id size
            | none => []
        | _ => []
    | _ => []

/-- The calls of `mread_pull`. -/
def pullCalls (self : Pool) (size : ℤ) (env : List ReadResult) : List (Ring × RingCall) :=
  match self.active with
  | none => []
  | some id =>
    match self.ringbuffer_read id size with
    | some (rd_size, none) =>
      if (self.sockets id).status = .POLLIN ∨ (self.sockets id).status = .FIRST_POLLIN then
        self.receiveCalls id size (size - rd_size) (wanted size rd_size) env
      else []
    | _ => []

/-- The calls of `mread_yield`. -/
def yieldCalls (self : Pool) : List (Ring × RingCall) :=
  match self.active with
  | none => []
  | some id =>
    (self.rb, .free (self.sockets id).temp) ::
      match self.rb.ringbuffer_free (self.sockets id).temp, (self.sockets id).node with
      | some rb, some node => [(rb, .yield node self.skip)]
      | _, _ => []

/-- The calls of an operation on the ring, in order, each with the ring it is made on. -/
def calls (self : Pool) : PoolOp → List (Ring × RingCall)
  | .pull size env => self.pullCalls size env
  | .yield => self.yieldCalls
  | .closed =>
    match self.active with
    | some id =>
      if (self.sockets id).status = .CLOSED ∧ (self.sockets id).node = none then self.yieldCalls
      else []
    | none => []
  | _ => []

end Pool

/-! ## The calls lead from the ring before to the ring after -/

namespace Ring

/-- Each call is made on the ring that the one before it left. -/
inductive Linked : Ring → List (Ring × RingCall) → Ring → Prop
  | nil (rb : Ring) : Linked rb [] rb
  | cons {rb rb₁ rb' : Ring} {c : RingCall} {r : Option ℕ} {es : List (Ring × RingCall)} :
      c.exec rb = some (rb₁, r) → Linked rb₁ es rb' → Linked rb ((rb, c) :: es) rb'

theorem Linked.append {rb rb₁ rb' : Ring} {es es' : List (Ring × RingCall)}
    (h : Linked rb es rb₁) (h' : Linked rb₁ es' rb') : Linked rb (es ++ es') rb' := by
  induction h with
  | nil => exact h'
  | cons hexec _ ih => exact .cons hexec (ih h')

/-- A single call. -/
theorem Linked.one {rb rb' : Ring} {c : RingCall} {r : Option ℕ}
    (h : c.exec rb = some (rb', r)) : Linked rb [(rb, c)] rb' := .cons h (.nil _)

end Ring

namespace Pool

variable {self self' : Pool} {id blk fuel : ℕ} {n : ℤ}

theorem force_close_rb {cid : ℤ} (h : self.force_close_client cid = some self') :
    self'.rb = self.rb := by
  unfold force_close_client at h
  split_ifs at h
  obtain rfl := Option.some.inj h
  rfl

theorem closeCalls_linked (h : self.close_active id = some self') :
    Ring.Linked self.rb (self.closeCalls id) self'.rb := by
  unfold close_active at h
  obtain ⟨rb₁, h₁, h⟩ := Option.bind_eq_some_iff.mp h
  obtain ⟨rb₂, h₂, h⟩ := Option.bind_eq_some_iff.mp h
  unfold closeCalls
  rw [h₁, force_close_rb h]
  exact .cons (RingCall.exec_free h₁) (.one (RingCall.exec_free h₂))

theorem linkCalls_linked (h : self.link_node id blk = some self') :
    Ring.Linked self.rb (self.linkCalls id blk) self'.rb := by
  unfold link_node at h
  unfold linkCalls
  cases hnode : (self.sockets id).node with
  | none =>
    rw [hnode] at h
    obtain rfl := Option.some.inj h
    exact .one rfl
  | some node =>
    rw [hnode] at h
    obtain ⟨rb, hlink, rfl⟩ := Option.map_eq_some_iff.mp h
    exact .one (RingCall.exec_link hlink)

theorem allocateCalls_linked {r : Option ℕ} (h : self.allocate id n fuel = some (self', r)) :
    Ring.Linked self.rb (self.allocateCalls id n fuel) self'.rb := by
  induction fuel generalizing self with
  | zero => cases h
  | succ fuel ih =>
    rw [Pool.allocate] at h
    rw [allocateCalls]
    obtain ⟨⟨rb₁, b⟩, halloc, h⟩ := Option.bind_eq_some_iff.mp h
    rw [halloc]
    cases b with
    | some blk =>
      cases h
      exact .one halloc
    | none =>
      obtain ⟨⟨rb₂, cid⟩, hcollect, h⟩ := Option.bind_eq_some_iff.mp h
      obtain ⟨p, hclose, h⟩ := Option.bind_eq_some_iff.mp h
      have hrb : p.rb = rb₂ := force_close_rb hclose
      dsimp only at h ⊢
      rw [hcollect]
      dsimp only
      rw [hclose]
      refine .cons halloc (.cons (RingCall.exec_collect hcollect) ?_)
      dsimp only
      by_cases hid : cid = id
      · rw [if_pos hid] at h ⊢
        cases h
        rw [hrb]
        exact .nil _
      · rw [if_neg hid] at h ⊢
        exact hrb ▸ ih h

theorem dropCalls_linked {rb : Ring} (hshrink : self.rb.ringbuffer_shrink blk 0 = some rb)
    (h : ({ self with rb := rb } : Pool).close_active id = some self') :
    Ring.Linked self.rb (self.dropCalls id blk) self'.rb := by
  unfold dropCalls
  rw [hshrink]
  exact .cons (RingCall.exec_shrink hshrink) (closeCalls_linked h)

theorem fillCalls_linked {sz rd : ℤ} {env : List ReadResult} {b : Bool}
    (h : self.fill id blk sz rd env = some (self', b)) :
    Ring.Linked self.rb (self.fillCalls id blk sz rd env) self'.rb := by
  induction env with
  | nil =>
    obtain ⟨rb, hrb, heq⟩ := Option.map_eq_some_iff.mp h
    cases heq
    exact .one (RingCall.exec_shrink hrb)
  | cons e env ih =>
    cases e with
    | EINTR => exact ih h
    | EWOULDBLOCK =>
      obtain ⟨rb, hrb, heq⟩ := Option.map_eq_some_iff.mp h
      cases heq
      exact .one (RingCall.exec_shrink hrb)
    | failed =>
      obtain ⟨rb, hrb, h⟩ := Option.bind_eq_some_iff.mp h
      obtain ⟨p, hp, heq⟩ := Option.map_eq_some_iff.mp h
      cases heq
      exact dropCalls_linked hrb hp
    | bytes data =>
      unfold Pool.fill at h
      unfold fillCalls
      simp only at h ⊢
      generalize hlen : (if (self.sockets id).status = SocketStatus.FIRST_POLLIN then _ else 0) =
        httplen at h ⊢
      generalize hmem : (if httplen = 0 then _ else _ : Memory) = mem at h ⊢
      -- the bytes are written, and those behind a preamble once more
      have hwritten : Ring.Linked self.rb ((self.rb, .write blk (data.take rd.toNat)) ::
          if httplen = 0 then []
          else [({ self.rb with mem := self.rb.mem.putBytes (blk + 16) (data.take rd.toNat) },
            .write blk ((data.take rd.toNat).drop httplen))]) { self.rb with mem := mem } := by
        rw [← hmem]
        refine .cons rfl ?_
        split_ifs
        · exact .nil _
        · exact .one rfl
      refine hwritten.append ?_
      by_cases hempty : data.take rd.toNat = []
      · rw [if_pos hempty] at h ⊢
        obtain ⟨rb, hrb, h⟩ := Option.bind_eq_some_iff.mp h
        obtain ⟨p, hp, heq⟩ := Option.map_eq_some_iff.mp h
        cases heq
        exact @dropCalls_linked { self with rb := { self.rb with mem := mem } } _ _ _ _ hrb hp
      · rw [if_neg hempty] at h ⊢
        by_cases hnone : (data.take rd.toNat).drop httplen = []
        · rw [if_pos hnone] at h ⊢
          cases h
          exact .nil _
        · rw [if_neg hnone] at h ⊢
          generalize (((data.take rd.toNat).drop httplen).length : ℤ) = m at h ⊢
          obtain ⟨rb, hrb, h⟩ := Option.bind_eq_some_iff.mp h
          rw [hrb]
          refine .cons (RingCall.exec_shrink hrb) ?_
          dsimp only
          by_cases hsz : m < sz
          · rw [if_pos hsz] at h ⊢
            obtain ⟨p, hp, heq⟩ := Option.map_eq_some_iff.mp h
            cases heq
            exact linkCalls_linked hp
          · rw [if_neg hsz] at h ⊢
            cases h
            exact .nil _

/-- The calls that make the copy. -/
theorem copyCalls_linked {temp node : ℕ} {rb rb' : Ring}
    (hlink : (match (self.sockets id).temp with
      | some old => (self.rb.setId temp id).ringbuffer_link temp old
      | none => some (self.rb.setId temp id)) = some rb)
    (hnode : (self.sockets id).node = some node)
    (hcopy : rb.ringbuffer_copy node self.skip temp = some rb') :
    Ring.Linked self.rb (self.copyCalls id temp) rb' := by
  unfold copyCalls
  rw [hnode]
  refine .cons rfl ?_
  cases htemp : (self.sockets id).temp with
  | none =>
    rw [htemp] at hlink
    obtain rfl := Option.some.inj hlink
    exact .one (RingCall.exec_copy hcopy)
  | some old =>
    rw [htemp] at hlink
    dsimp only at hlink ⊢
    rw [hlink]
    exact .cons (RingCall.exec_link hlink) (.one (RingCall.exec_copy hcopy))

theorem gatherCalls_linked {size : ℤ} {r : Option ℤ}
    (h : self.gather id size = some (self', r)) :
    Ring.Linked self.rb (self.gatherCalls id size) self'.rb := by
  unfold Pool.gather at h
  unfold gatherCalls
  obtain ⟨⟨n, ptr⟩, hread, h⟩ := Option.bind_eq_some_iff.mp h
  rw [hread]
  cases ptr with
  | some ptr =>
    cases h
    exact .nil _
  | none =>
    dsimp only at h ⊢
    split_ifs at h ⊢ with hall
    obtain ⟨⟨q, temp⟩, halloc, h⟩ := Option.bind_eq_some_iff.mp h
    rw [halloc]
    refine (allocateCalls_linked halloc).append ?_
    cases temp with
    | none =>
      cases h
      exact .nil _
    | some temp =>
      obtain ⟨rb, hlink, h⟩ := Option.bind_eq_some_iff.mp h
      obtain ⟨node, hnode, h⟩ := Option.bind_eq_some_iff.mp h
      obtain ⟨rb', hcopy, heq⟩ := Option.map_eq_some_iff.mp h
      cases heq
      exact copyCalls_linked hlink hnode hcopy

theorem receiveCalls_linked {size sz rd : ℤ} {env : List ReadResult} {r : Option ℤ}
    (h : self.receive id size sz rd env = some (self', r)) :
    Ring.Linked self.rb (self.receiveCalls id size sz rd env) self'.rb := by
  unfold receiveCalls
  obtain ⟨⟨p, blk⟩, halloc, h⟩ := Option.bind_eq_some_iff.mp h
  rw [halloc]
  refine (allocateCalls_linked halloc).append ?_
  cases blk with
  | none =>
    cases h
    exact .nil _
  | some blk =>
    obtain ⟨⟨p₁, b⟩, hfill, h⟩ := Option.bind_eq_some_iff.mp h
    dsimp only
    rw [hfill]
    refine (fillCalls_linked hfill).append ?_
    cases b with
    | false =>
      cases h
      exact .nil _
    | true =>
      obtain ⟨p₂, hlink, h⟩ := Option.bind_eq_some_iff.mp h
      dsimp only
      rw [hlink]
      exact (linkCalls_linked hlink).append (gatherCalls_linked h)

theorem pullCalls_linked {size : ℤ} {env : List ReadResult} {r : Option ℤ}
    (h : self.mread_pull size env = some (self', r)) :
    Ring.Linked self.rb (self.pullCalls size env) self'.rb := by
  unfold pullCalls
  cases hactive : self.active with
  | none =>
    rw [(pull_idle hactive h).1]
    exact .nil _
  | some id =>
    unfold mread_pull at h
    rw [hactive] at h
    obtain ⟨⟨n, ptr⟩, hread, h⟩ := Option.bind_eq_some_iff.mp h
    dsimp only
    rw [hread]
    cases ptr with
    | some ptr =>
      cases h
      exact .nil _
    | none =>
      dsimp only at h ⊢
      split_ifs with hstatus
      · have hrun : self.receive id size (size - n) (wanted size n) env = some (self', r) := by
          rcases hstatus with hs | hs <;> rw [hs] at h <;> exact h
        exact receiveCalls_linked hrun
      · have hrb : self'.rb = self.rb := by
          cases hs : (self.sockets id).status <;> rw [hs] at h hstatus <;> simp only at h
          case POLLIN => exact absurd (.inl rfl) hstatus
          case FIRST_POLLIN => exact absurd (.inr rfl) hstatus
          case HALFCLOSE =>
            split at h
            · cases h
              rfl
            · cases h
          case INVALID => cases h
          case CONNECTED => cases h
          all_goals
            cases h
            rfl
        rw [hrb]
        exact .nil _

/-- A poll makes no call. -/
theorem pollQueue_rb {queue : List PollEvent} {r : Option ℕ}
    (h : self.pollQueue queue = some (self', r)) : self'.rb = self.rb := by
  induction queue generalizing self with
  | nil =>
    cases h
    rfl
  | cons e queue ih =>
    cases e with
    | listen accepted =>
      cases accepted with
      | failed => exact ih h
      | connected fd registered =>
        rw [Pool.pollQueue] at h
        have hring : (self.add_client fd registered).1.rb = self.rb := add_client_rb
        rcases hadd : self.add_client fd registered with ⟨p, _ | i⟩ <;> rw [hadd] at h hring
        · exact (ih h).trans hring
        · cases h
          exact hring
    | socket i readflag writeflag =>
      have hring : (self.written i writeflag).rb = self.rb := by
        cases writeflag <;> rfl
      unfold Pool.pollQueue at h
      split at h
      · simp only at h
        split at h
        · cases h
          exact hring
        · exact (ih h).trans hring
      · cases h

theorem poll_rb {wait : Option (List PollEvent)} {r : Option ℕ}
    (h : self.mread_poll wait = some (self', r)) : self'.rb = self.rb := by
  unfold mread_poll at h
  simp only at h
  split at h
  · cases h
    rfl
  · split at h
    · split at h
      · unfold report_closed at h
        obtain ⟨i, -, heq⟩ := Option.map_eq_some_iff.mp h
        cases heq
        rfl
      · cases wait with
        | none =>
          cases h
          rfl
        | some queue => exact @pollQueue_rb { self with skip := 0 } _ _ _ h
    · exact @pollQueue_rb { self with skip := 0 } _ _ _ h

theorem yieldCalls_linked (h : self.mread_yield = some self') :
    Ring.Linked self.rb self.yieldCalls self'.rb := by
  unfold mread_yield at h
  unfold yieldCalls
  cases hactive : self.active with
  | none =>
    rw [hactive] at h
    cases h
    exact .nil _
  | some id =>
    rw [hactive] at h
    obtain ⟨rb, hfree, h⟩ := Option.bind_eq_some_iff.mp h
    simp only [set_self] at h
    dsimp only
    rw [hfree]
    refine .cons (RingCall.exec_free hfree) ?_
    split at h
    · rename_i hclosed
      rw [hclosed.2]
      cases h
      exact .nil _
    · cases hnode : (self.sockets id).node with
      | none =>
        rw [hnode] at h
        cases h
        exact .nil _
      | some node =>
        rw [hnode] at h
        obtain ⟨⟨rb', r⟩, hyield, rfl⟩ := Option.map_eq_some_iff.mp h
        exact .one hyield

/-- The calls of an operation lead from the ring before it to the ring after it. -/
theorem calls_linked {op : PoolOp} (h : self.exec op = some self') :
    Ring.Linked self.rb (self.calls op) self'.rb := by
  cases op with
  | poll wait =>
    obtain ⟨⟨p, r⟩, hp, rfl⟩ := Option.map_eq_some_iff.mp h
    rw [poll_rb hp]
    exact .nil _
  | pull size env =>
    obtain ⟨⟨p, r⟩, hp, rfl⟩ := Option.map_eq_some_iff.mp h
    exact pullCalls_linked hp
  | yield => exact yieldCalls_linked h
  | closed =>
    obtain ⟨⟨p, b⟩, hp, rfl⟩ := Option.map_eq_some_iff.mp h
    unfold mread_closed at hp
    unfold calls
    dsimp only
    cases hactive : self.active with
    | none =>
      rw [hactive] at hp
      cases hp
      exact .nil _
    | some id =>
      rw [hactive] at hp
      dsimp only at hp ⊢
      split_ifs at hp ⊢
      · obtain ⟨q, hq, heq⟩ := Option.map_eq_some_iff.mp hp
        cases heq
        exact yieldCalls_linked hq
      · cases hp
        exact .nil _
  | push id buffer env =>
    simp only [Pool.exec] at h
    split at h
    · obtain rfl := Option.some.inj h
      exact .nil _
    · cases h
  | close_client id =>
    simp only [Pool.exec] at h
    split at h
    · obtain rfl := Option.some.inj h
      exact .nil _
    · cases h

end Pool

end DnServer.Gate
