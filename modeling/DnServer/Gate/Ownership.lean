import DnServer.Gate.Reclaim

/-!
# Whose blocks they are

A block names the slot of its owner. While the socket of that slot reaches the block, the
block holds bytes of the connection that has the slot, and a collection that strikes it
closes this connection. A socket that is closed by `try_close` forgets its chains, but the
blocks stay in the ring under its slot; `_close_active` frees them first. When the slot is
given to a new client they pass for his.

* `Leads.rounds`: while a pull makes room, what it collects is reached from the socket
  it closes.
* `blocks_belong`: a slot is only given to a new client when nothing is left in the ring
  under it (`Tidy`); in `block_of_another` something is.
-/

namespace DnServer.Gate

open DnServer.Lib

instance (rb rb' : Ring) (o : ℕ) : Decidable (Ring.SameBlock rb rb' o) :=
  decidable_of_iff (∀ k < rb.span o, rb'.mem (o + k) = rb.mem (o + k)) <| by
    constructor
    · intro h i hi hlt
      have := h (i - o) (by omega)
      rwa [Nat.add_sub_cancel' hi] at this
    · intro h k hk
      exact h (o + k) (by omega) (by omega)

/-! ## Sockets that are closed -/

namespace Socket

variable {s : Socket}

theorem try_close_kept (h : s.try_close.2 = false) :
    s.try_close.1.node = s.node ∧ s.try_close.1.temp = s.temp := by
  rw [try_close_eq] at h ⊢
  split at h
  · rename_i hhalf
    rw [if_pos hhalf]
    exact quiet_chains
  · rename_i hhalf
    rw [if_neg hhalf]
    split at h
    · cases h
    · rename_i hclient
      rw [if_neg hclient]
      exact quiet_chains

/-- A push that does not close the socket keeps its chains. -/
theorem mread_push_kept {buffer : List UInt8} {env : List WriteResult}
    (h : (s.mread_push buffer env).2.2 = false) :
    (s.mread_push buffer env).1.node = s.node ∧ (s.mread_push buffer env).1.temp = s.temp := by
  unfold mread_push at h ⊢
  split
  · exact ⟨rfl, rfl⟩
  · rename_i hopen
    rw [if_neg hopen] at h
    split
    · rename_i hclient
      rw [if_pos hclient] at h
      split
      · rename_i heq
        rw [heq] at h
        exact try_close_kept h
      · exact ⟨rfl, rfl⟩
      · exact ⟨turn_on_chains.1, turn_on_chains.2.1⟩
    · exact ⟨turn_on_chains.1, turn_on_chains.2.1⟩

theorem writable_kept {env : List WriteResult} (h : (s.writable env).2.2 = false) :
    (s.writable env).1.node = s.node ∧ (s.writable env).1.temp = s.temp := by
  unfold writable at h ⊢
  split
  · exact ⟨rfl, rfl⟩
  · rename_i hclosed
    rw [if_neg hclosed] at h
    exact try_close_kept h

theorem mread_close_client_kept (h : s.mread_close_client.2 = false) :
    s.mread_close_client.1.node = s.node ∧ s.mread_close_client.1.temp = s.temp := by
  unfold mread_close_client at h ⊢
  split
  · exact ⟨rfl, rfl⟩
  · rename_i hopen
    rw [if_neg hopen] at h
    exact try_close_kept h

end Socket

namespace Pool

variable {self self' : Pool} {l l' : List ℕ} {i id : ℕ}

/-! ## Calls that close nobody who has blocks -/

/-- There is a block of the slot in the ring. -/
def HasBlocks (self : Pool) (i : ℕ) : Prop := self.Owns (self.rb.blocks.getD []) i

/-- In the loop of `mread_poll` no socket is closed that has blocks. -/
def TidyQueue (self : Pool) : List PollEvent → Prop
  | [] => True
  | .listen .failed :: queue => self.TidyQueue queue
  | .listen (.connected fd registered) :: queue =>
    (self.add_client fd registered).2 = none →
      (self.add_client fd registered).1.TidyQueue queue
  | .socket i readflag writeflag :: queue =>
    (∀ env, writeflag = some env → ((self.sockets i).writable env).2.2 = true →
        ¬self.HasBlocks i) ∧
      (¬(readflag ∧ ((self.written i writeflag).sockets i).status.isOpen) →
        (self.written i writeflag).TidyQueue queue)

/-- A call that closes a socket by `try_close` finds no blocks of it. -/
def Tidy (self : Pool) : PoolOp → Prop
  | .poll wait =>
    (∀ queue, wait = some queue → self.queue = [] → TidyQueue { self with skip := 0 } queue) ∧
      (self.queue ≠ [] → TidyQueue { self with skip := 0 } self.queue)
  | .push id buffer env => ((self.sockets id).mread_push buffer env).2.2 = true → ¬self.HasBlocks id
  | .close_client id => (self.sockets id).mread_close_client.2 = true → ¬self.HasBlocks id
  | _ => True

/-- Every block of someone is reached from the socket of its slot. -/
def Reached (self : Pool) (l : List ℕ) : Prop := ∀ o, ¬self.Stray l o

theorem Reached.among (h : self.Reached l) {o : ℕ} (ho : o ∈ l) (hu : self.rb.Used o)
    (hid : self.rb.id o = i) :
    Ring.Among self.rb l i (self.sockets i).node (self.sockets i).temp o := by
  by_contra hnot
  refine h o ⟨ho, hu, ?_⟩
  rwa [hid, Int.toNat_natCast]

/-- A slot that nobody has is the owner of no block. -/
theorem Reached.alive (h : self.Reached l) (hs : self.Sound l) {o : ℕ} (ho : o ∈ l)
    (hu : self.rb.Used o) (hid : self.rb.id o = i) : (self.sockets i).status.alive = true := by
  by_contra hdead
  obtain ⟨hnode, htemp⟩ := hs.quiet i (Bool.eq_false_iff.mpr hdead)
  obtain ⟨c, hmem, -, hc⟩ := h.among ho hu hid
  rw [hnode, htemp] at hc
  rcases hc with hc | hc <;> cases hc <;> cases hmem

theorem Reached.of_leads (h : self.Reached l) (hleads : self.Leads l id self' l') :
    self'.Reached l' := fun o ho => h o (hleads.strays o ho)

/-- `try_close` on a slot without blocks, or one that stays. -/
theorem Reached.settle {r : Socket × Bool} (h : self.Reached l) (ht : self.rb.Tiled l)
    (hkept : r.2 = false → r.1.node = (self.sockets i).node ∧ r.1.temp = (self.sockets i).temp)
    (htidy : r.2 = true → ¬self.HasBlocks i) : (self.settle i r).Reached l := by
  rintro o ⟨ho, hu, hnot⟩
  change self.rb.Used o at hu
  change ¬Ring.Among self.rb l (self.rb.id o) ((self.set i r.1).sockets (self.rb.id o).toNat).node
    ((self.set i r.1).sockets (self.rb.id o).toNat).temp o at hnot
  have hpos := hu.2
  by_cases hid : self.rb.id o = i
  · cases hr : r.2 with
    | true =>
      refine absurd ?_ (htidy hr)
      unfold HasBlocks
      rw [ht.blocks]
      exact ⟨o, ho, hu, hid⟩
    | false =>
      rw [hid, Int.toNat_natCast, set_self, (hkept hr).1, (hkept hr).2] at hnot
      exact hnot (h.among ho hu hid)
  · rw [set_of_ne _ (by omega)] at hnot
    exact h o ⟨ho, hu, hnot⟩

/-- The ring and the chains are as they were. -/
theorem Reached.congr (h : self.Reached l) (hrb : self'.rb = self.rb)
    (hchains : ∀ j, (self'.sockets j).node = (self.sockets j).node ∧
      (self'.sockets j).temp = (self.sockets j).temp) : self'.Reached l := by
  intro o ho
  refine h o ?_
  unfold Stray at ho ⊢
  rwa [hrb, (hchains _).1, (hchains _).2] at ho

/-- Another socket with the same chains. -/
theorem Reached.of_set {s : Socket} (h : self.Reached l) (hrb : self'.rb = self.rb)
    (hsockets : self'.sockets = Function.update self.sockets i s)
    (hnode : s.node = (self.sockets i).node) (htemp : s.temp = (self.sockets i).temp) :
    self'.Reached l := by
  refine h.congr hrb fun j => ?_
  rw [hsockets]
  by_cases hj : j = i
  · rw [hj, Function.update_self]
    exact ⟨hnode, htemp⟩
  · rw [Function.update_of_ne hj]
    exact ⟨rfl, rfl⟩

theorem add_client_rb {fd : ℕ} {registered : Bool} :
    (self.add_client fd registered).1.rb = self.rb := by
  unfold Pool.add_client alloc_socket
  cases self.free_socket with
  | none => rfl
  | some i => cases registered <;> rfl

/-- A new client has no chains, and the slot had none. -/
theorem Reached.add_client {fd : ℕ} {registered : Bool} (h : self.Reached l) (hs : self.Sound l) :
    (self.add_client fd registered).1.Reached l := by
  unfold Pool.add_client alloc_socket
  cases hfirst : self.free_socket with
  | none => exact h
  | some i =>
    simp only [Option.map_some]
    cases registered with
    | false => exact h.congr rfl fun j => ⟨rfl, rfl⟩
    | true =>
      -- the first slot of the free list is free
      have hinvalid : (self.sockets i).status = .INVALID := by
        obtain ⟨f, -, hlist, hfree⟩ := hs.threaded
        rw [hfirst] at hlist
        cases f with
        | nil => cases hlist
        | cons j f =>
          obtain ⟨heq, -⟩ := hlist
          obtain rfl := Option.some.inj heq
          exact hfree i List.mem_cons_self
      have hnode := (hs.quiet i (by rw [hinvalid]; rfl)).1
      exact h.of_set rfl rfl hnode.symm rfl

theorem Reached.pollQueue {queue : List PollEvent} {r : Option ℕ} (h : self.Reached l)
    (hs : self.Sound l) (hskip : self.skip = 0) (htidy : self.TidyQueue queue)
    (hrun : self.pollQueue queue = some (self', r)) : self'.rb = self.rb ∧ self'.Reached l := by
  induction queue generalizing self with
  | nil =>
    cases hrun
    exact ⟨rfl, h.congr rfl fun j => ⟨rfl, rfl⟩⟩
  | cons e queue ih =>
    cases e with
    | listen accepted =>
      cases accepted with
      | failed => exact ih h hs hskip htidy hrun
      | connected fd registered =>
        rw [Pool.pollQueue] at hrun
        have hadded : (self.add_client fd registered).1.Reached l := h.add_client hs
        have hring : (self.add_client fd registered).1.rb = self.rb := add_client_rb
        rw [TidyQueue] at htidy
        rcases hadd : self.add_client fd registered with ⟨p, _ | i⟩ <;>
          rw [hadd] at hrun htidy hadded hring <;>
          obtain ⟨hp, hpskip⟩ := hs.add_client hskip hadd
        · obtain ⟨heq, hreached⟩ := ih hadded hp hpskip (htidy rfl) hrun
          exact ⟨heq.trans hring, hreached⟩
        · cases hrun
          exact ⟨hring, hadded.congr rfl fun j => ⟨rfl, rfl⟩⟩
    | socket i readflag writeflag =>
      obtain ⟨hclosing, hrest⟩ := htidy
      unfold Pool.pollQueue at hrun
      split at hrun
      · simp only at hrun
        have hwritten : (self.written i writeflag).rb = self.rb ∧
            (self.written i writeflag).Reached l ∧ (self.written i writeflag).Sound l ∧
            (self.written i writeflag).skip = 0 := by
          cases writeflag with
          | none => exact ⟨rfl, h, hs, hskip⟩
          | some env =>
            exact ⟨rfl, h.settle hs.tiled Socket.writable_kept (hclosing env rfl),
              hs.settle (Socket.writable_eases env), hskip⟩
        generalize self.written i writeflag = p at hrun hwritten hrest
        obtain ⟨hring, hreached, hsound, hpskip⟩ := hwritten
        split at hrun
        · cases hrun
          exact ⟨hring, hreached.of_set rfl rfl rfl rfl⟩
        · rename_i hread
          obtain ⟨heq, hreached'⟩ := ih hreached hsound hpskip (hrest hread) hrun
          exact ⟨heq.trans hring, hreached'⟩
      · cases hrun

theorem Reached.poll {wait : Option (List PollEvent)} {r : Option ℕ} (h : self.Reached l)
    (hs : self.Sound l) (htidy : self.Tidy (.poll wait))
    (hrun : self.mread_poll wait = some (self', r)) : self'.rb = self.rb ∧ self'.Reached l := by
  have hskip := hs.rewind
  have hreached : Reached { self with skip := 0 } l := h.congr rfl fun j => ⟨rfl, rfl⟩
  obtain ⟨hwait, hqueue⟩ := htidy
  unfold mread_poll at hrun
  simp only at hrun
  split at hrun
  · cases hrun
    exact ⟨rfl, hreached⟩
  · split at hrun
    · rename_i hempty
      split at hrun
      · unfold report_closed at hrun
        obtain ⟨i, -, heq⟩ := Option.map_eq_some_iff.mp hrun
        cases heq
        exact ⟨rfl, hreached.congr rfl fun j => ⟨rfl, rfl⟩⟩
      · cases wait with
        | none =>
          cases hrun
          exact ⟨rfl, hreached.congr rfl fun j => ⟨rfl, rfl⟩⟩
        | some queue => exact hreached.pollQueue hskip rfl (hwait queue rfl hempty) hrun
    · rename_i hsome
      exact hreached.pollQueue hskip rfl (hqueue hsome) hrun

/-- After the call the block is the active slot's, which no poll makes it, or is as it was. -/
def Derives (p : Pool) (op : PoolOp) (p' : Pool) (l : List ℕ) (o : ℕ) : Prop :=
  ((∃ i : ℕ, p.active = some i ∧ p'.rb.id o = i) ∧ ∀ wait, op ≠ .poll wait) ∨
    (o ∈ l ∧ p.rb.Used o ∧ Ring.SameBlock p.rb p'.rb o)

/-- One call keeps all blocks in reach. -/
theorem Reached.exec {op : PoolOp} (h : self.Reached l) (hs : self.Sound l)
    (hfits : self.Fitting op) (htidy : self.Tidy op) (hrun : self.exec op = some self') :
    ∃ l', self'.Sound l' ∧ self'.Reached l' ∧
      ∀ o ∈ l', self'.rb.Used o → self.Derives op self' l o := by
  have hring : self'.rb = self.rb → ∀ o ∈ l, self'.rb.Used o → self.Derives op self' l o := by
    intro hrb o ho hu
    unfold Derives
    rw [hrb] at hu ⊢
    exact .inr ⟨ho, hu, .refl _ _⟩
  have hblocks : (∃ size env, op = .pull size env) ∨ op = .yield ∨ op = .closed →
      ∃ l', self'.Sound l' ∧ self'.Reached l' ∧
        ∀ o ∈ l', self'.rb.Used o → self.Derives op self' l o := by
    intro hop
    cases hactive : self.active with
    | none =>
      obtain rfl := exec_idle hactive hrun hop
      exact ⟨l, hs, h, fun o ho hu => .inr ⟨ho, hu, .refl _ _⟩⟩
    | some id =>
      obtain ⟨l', hleads⟩ := hs.exec_leads hfits hactive hrun hop
      refine ⟨l', hleads.sound, h.of_leads hleads, fun o ho hu => ?_⟩
      refine (hleads.origin o ho hu).imp_left fun hid => ⟨⟨id, hactive, hid⟩, fun wait heq => ?_⟩
      rw [heq] at hop
      rcases hop with ⟨_, _, hno⟩ | hno | hno <;> cases hno
  cases op with
  | poll wait =>
    obtain ⟨⟨p, r⟩, hp, rfl⟩ := Option.map_eq_some_iff.mp hrun
    obtain ⟨hrb, hreached⟩ := h.poll hs htidy hp
    exact ⟨l, hs.poll hp, hreached, hring hrb⟩
  | pull size env => exact hblocks (.inl ⟨size, env, rfl⟩)
  | yield => exact hblocks (.inr (.inl rfl))
  | closed => exact hblocks (.inr (.inr rfl))
  | push id buffer env =>
    simp only [Pool.exec] at hrun
    split at hrun
    · obtain rfl := Option.some.inj hrun
      exact ⟨l, hs.settle (Socket.mread_push_eases buffer env),
        h.settle hs.tiled Socket.mread_push_kept htidy, hring rfl⟩
    · cases hrun
  | close_client id =>
    simp only [Pool.exec] at hrun
    split at hrun
    · obtain rfl := Option.some.inj hrun
      exact ⟨l, hs.settle Socket.mread_close_client_eases,
        h.settle hs.tiled Socket.mread_close_client_kept htidy, hring rfl⟩
    · cases hrun

/-! ## Whose bytes a block holds -/

/-- A record of the connections beside the pool. -/
structure Origins where
  /-- How many connections a slot has had. -/
  conns : ℕ → ℕ
  /-- Which of them the bytes of a block came from. -/
  source : ℕ → ℕ

def Origins.start (_ : Pool) : Origins := ⟨fun _ => 0, fun _ => 0⟩

/-- A poll can accept a client in a free slot. A block that was there and is the same has its
bytes from where it had them, any other from the socket that is active. -/
def Origins.note (p : Pool) (op : PoolOp) (p' : Pool) (r : Origins) : Origins where
  conns i := match op with
    | .poll _ =>
      if (p.sockets i).status = .INVALID ∧ (p'.sockets i).status ≠ .INVALID then r.conns i + 1
      else r.conns i
    | _ => r.conns i
  source o :=
    if o ∈ p.rb.blocks.getD [] ∧ p.rb.Used o ∧ Ring.SameBlock p.rb p'.rb o then r.source o
    else match p.active with
      | some i => r.conns i
      | none => r.source o

/-- The socket of the slot that the block names reaches it, and is that of the connection whose
bytes it holds. -/
def Belongs (p : Pool) (r : Origins) (l : List ℕ) (o : ℕ) : Prop :=
  ∃ i : ℕ, i < p.max_connection ∧ p.rb.id o = i ∧
    Ring.Among p.rb l i (p.sockets i).node (p.sockets i).temp o ∧ r.source o = r.conns i

/-- The record of every block is right. -/
def Origins.Right (r : Origins) (p : Pool) (l : List ℕ) : Prop :=
  ∀ o ∈ l, p.rb.Used o → ∀ i : ℕ, p.rb.id o = i → r.source o = r.conns i

theorem Reached.belongs {r : Origins} (h : self.Reached l) (hs : self.Sound l)
    (hr : r.Right self l) {o : ℕ} (ho : o ∈ l) (hu : self.rb.Used o) : self.Belongs r l o := by
  obtain ⟨i, hi⟩ := Int.eq_ofNat_of_zero_le hu.2
  have hmax := hs.owner o ho hu
  rw [hi] at hmax
  exact ⟨i, by omega, hi, h.among ho hu hi, hr o ho hu i hi⟩

/-- One call keeps the record right. -/
theorem Origins.Right.note {r : Origins} {op : PoolOp} (hr : r.Right self l)
    (h : self.Reached l) (hs : self.Sound l)
    (horigin : ∀ o ∈ l', self'.rb.Used o → self.Derives op self' l o) :
    (Origins.note self op self' r).Right self' l' := by
  intro o ho hu i hid
  -- a slot that has blocks is not given to a new client
  have hconns : (∃ o ∈ l, self.rb.Used o ∧ self.rb.id o = i) ∨ (∀ wait, op ≠ .poll wait) →
      (Origins.note self op self' r).conns i = r.conns i := by
    intro hcase
    unfold Origins.note
    cases op with
    | poll wait =>
      obtain ⟨x, hx, hxu, hxid⟩ := hcase.resolve_right fun hno => hno wait rfl
      refine if_neg fun hboth => ?_
      have halive := h.alive hs hx hxu hxid
      rw [hboth.1] at halive
      cases halive
    | _ => rfl
  by_cases hkept : o ∈ self.rb.blocks.getD [] ∧ self.rb.Used o ∧
      Ring.SameBlock self.rb self'.rb o
  · have hsource : (Origins.note self op self' r).source o = r.source o := if_pos hkept
    rw [hs.tiled.blocks] at hkept
    obtain ⟨hmem, hused, hsame⟩ := hkept
    have hbefore := (hs.tiled.used_same hmem hsame hused).2.symm.trans hid
    rw [hsource, hconns (.inl ⟨o, hmem, hused, hbefore⟩)]
    exact hr o hmem hused i hbefore
  · rcases horigin o ho hu with ⟨⟨j, hactive, hj⟩, hop⟩ | ⟨hmem, hused, hsame⟩
    · obtain rfl : i = j := by omega
      have hsource : (Origins.note self op self' r).source o = r.conns i := by
        refine (if_neg hkept).trans ?_
        rw [hactive]
      rw [hsource, hconns (.inr hop)]
    · rw [hs.tiled.blocks] at hkept
      exact absurd ⟨hmem, hused, hsame⟩ hkept

/-! ## Over whole runs -/

/-- The rounds of the loop that makes room for `n` bytes for slot `id`. -/
inductive Rounds (id : ℕ) (n : ℤ) : Pool → Pool → Prop
  | refl (p : Pool) : Rounds id n p p
  | round {p p' q : Pool} {rb₁ rb₂ : Ring} {cid : ℤ}
      (halloc : p.rb.ringbuffer_alloc n = some (rb₁, none))
      (hcollect : rb₁.ringbuffer_collect = some (rb₂, cid))
      (hclose : ({ p with rb := rb₂ } : Pool).force_close_client cid = some p') (hne : cid ≠ id)
      (hrest : Rounds id n p' q) : Rounds id n p q

/-- Collecting for slot `id` closes only a slot that has a block, which belongs to it. -/
def Collects (p : Pool) (r : Origins) (id : ℕ) (n : ℤ) : Prop :=
  ∀ q rb₁ rb₂ cid, Rounds id n p q → q.rb.ringbuffer_alloc n = some (rb₁, none) →
    rb₁.ringbuffer_collect = some (rb₂, cid) → 0 ≤ cid →
      ∃ l o, q.rb.Tiled l ∧ o ∈ l ∧ q.rb.Used o ∧ q.rb.id o = cid ∧
        Ring.Among q.rb l cid (q.sockets cid.toNat).node (q.sockets cid.toNat).temp o ∧
        (cid = id ∨ r.source o = r.conns cid.toNat)

theorem Leads.rounds {q : Pool} {n : ℤ} (h : self.Leads l id self' l') (hl : self.rb.Tiled l)
    (hactive : self'.active = some id) (hopen : (self'.sockets id).status.isOpen = true)
    (hn : 0 ≤ n) (hfits : self'.Fits id n) (hrounds : Rounds id n self' q) :
    ∃ l₁, self.Leads l id q l₁ ∧ q.Fits id n ∧ q.active = some id ∧
      (q.sockets id).status.isOpen = true := by
  induction hrounds generalizing l' with
  | refl p => exact ⟨l', h, hfits, hactive, hopen⟩
  | @round p p' q rb₁ rb₂ cid halloc hcollect hclose hne _ ih =>
    have hact : ∀ i, p.active = some i → (p.sockets i).status.isOpen = true := by
      intro i hi
      obtain rfl := Option.some.inj (hactive.symm.trans hi)
      exact hopen
    have hp := h.sound
    rcases hfits with hle | hown
    · rcases hp.tiled.alloc_spec hn hle halloc with ⟨-, ht, hmem, hsize⟩ | ⟨_, _, hno, -⟩
      · have hev := hp.evict ht hmem hsize hact hcollect hclose
        exact ih (h.trans hl (hev.leads hp)) (hev.active.trans hactive)
          (by rw [hev.others id (Ne.symm hne)]; exact hopen) (.inl hle)
      · cases hno
    · -- the blocks of the slot itself are at the head, and would be collected
      rw [hp.tiled.alloc_refused hown.1] at halloc
      cases halloc
      exact absurd ((hp.tiled.collect_head hown.1 hcollect).1.trans hown.2) hne

theorem Reached.collects {r : Origins} {p : Pool} {n : ℤ} (h : self.Reached l)
    (hs : self.Sound l) (hr : r.Right self l) (hleads : self.Leads l id p l')
    (hactive : p.active = some id) (hopen : (p.sockets id).status.isOpen = true) (hn : 0 ≤ n)
    (hfits : p.Fits id n) : p.Collects r id n := by
  intro q rb₁ rb₂ cid hrounds halloc hcollect hcid
  obtain ⟨l₁, hq, hfits', -, -⟩ := hleads.rounds hs.tiled hactive hopen hn hfits hrounds
  have hsome : ∃ o ∈ l₁, q.rb.Used o ∧ q.rb.id o = cid := by
    rcases hfits' with hle | hown
    · rcases hq.sound.tiled.alloc_spec hn hle halloc with ⟨-, ht, hmem, -⟩ | ⟨_, _, hno, -⟩
      · obtain ⟨-, ⟨o, ho, hu, hid⟩ | ⟨hminus, -⟩⟩ := ht.collect_spec hcollect
        · refine ⟨o, ho, ?_⟩
          unfold Ring.Used Ring.Whole Ring.length Ring.id at hu ⊢
          unfold Ring.id at hid
          rw [hmem] at hu hid
          exact ⟨hu, hid⟩
        · omega
      · cases hno
    · rw [hq.sound.tiled.alloc_refused hown.1] at halloc
      cases halloc
      exact ⟨_, hq.sound.tiled.head, hown.1, (hq.sound.tiled.collect_head hown.1 hcollect).1.symm⟩
  obtain ⟨o, ho, hu, hid⟩ := hsome
  obtain ⟨i, rfl⟩ := Int.eq_ofNat_of_zero_le hcid
  rw [Int.toNat_natCast]
  refine ⟨l₁, o, hq.sound.tiled, ho, hu, hid, (h.of_leads hq).among ho hu hid, ?_⟩
  rcases hq.origin o ho hu with heq | ⟨hmem, hused, hsame⟩
  · exact .inl (hid.symm.trans heq)
  · exact .inr (hr o hmem hused i ((hs.tiled.used_same hmem hsame hused).2.symm.trans hid))

/-- The pulls of the run fit, and who is closed by `try_close` has no blocks. -/
def Orderly (self : Pool) (op : PoolOp) : Prop := self.Fitting op ∧ self.Tidy op

/-- The pool and the record of its connections. -/
def recorded (max : ℕ) (buffer_size : ℤ) : TSys (Pool × Origins) PoolOp :=
  ((system max buffer_size).restrict Orderly).observe Origins.start Origins.note

theorem recorded_right {max : ℕ} {buffer_size : ℤ} (hsmall : max < 2147483648)
    (hbuffer : buffer_size ≤ 2147483644) :
    (recorded max buffer_size).Inductive fun s =>
      ∃ l, s.1.Sound l ∧ s.1.Reached l ∧ s.2.Right s.1 l where
  init := by
    rintro ⟨self, r⟩ ⟨⟨hmax, heq⟩, -⟩
    change self = _ at heq
    subst heq
    have hsound := Sound.create hmax hsmall hbuffer
    have hnone : ∀ o ∈ [0], ¬(mread_create max buffer_size).rb.Used o := by
      intro o ho
      rw [List.mem_singleton.mp ho]
      exact (create_tiled (by split <;> omega)).2.2
    exact ⟨[0], hsound, fun o ho => hnone o ho.1 ho.2.1, fun o ho hu => absurd hu (hnone o ho)⟩
  step := by
    rintro ⟨self, r⟩ op ⟨self', r'⟩ - ⟨l, hs, hreached, hr⟩ ⟨⟨hcond, hrun⟩, hnote⟩
    change r' = Origins.note self op self' r at hnote
    subst hnote
    obtain ⟨l', hs', hreached', horigin⟩ := hreached.exec hs hcond.1 hcond.2 hrun
    exact ⟨l', hs', hreached', hr.note hreached hs horigin⟩

/-- **Ownership of blocks.** In every run whose pulls fit and in which nobody is closed by
`try_close` while blocks of his are in the ring, every block is reached from the socket of the
slot it names, and this is the connection whose bytes it holds; and whoever a pull closes to make
room is the owner of a block that it collects. -/
theorem blocks_belong {max : ℕ} {buffer_size : ℤ} {s : Pool × Origins} (hsmall : max < 2147483648)
    (hbuffer : buffer_size ≤ 2147483644) (hs : (recorded max buffer_size).Reachable s) :
    (∃ l, s.1.rb.Tiled l ∧ ∀ o ∈ l, s.1.rb.Used o → s.1.Belongs s.2 l o) ∧
      ∀ size env id p n, s.1.Fitting (.pull size env) → s.1.Enters size env id p n →
        p.Collects s.2 id n := by
  obtain ⟨l, hsound, hreached, hr⟩ := (recorded_right hsmall hbuffer).invariant _ hs
  refine ⟨⟨l, hsound.tiled, fun o ho hu => hreached.belongs hsound hr ho hu⟩, ?_⟩
  rintro size env id p n ⟨hsize, hfits⟩ henters
  cases henters with
  | first hwants =>
    have hwanted := wanted_spec size (hsound.missing hwants hsize)
    exact hreached.collects hsound hr (.of_same hsound rfl fun j => ⟨rfl, rfl⟩) hwants.active
      hwants.open hwanted.1 (hfits _ _ hwants)
  | second hwants halloc hfill hlink hread =>
    obtain ⟨l', hleads, hactive, hopen⟩ :=
      hsound.before_copy hsize hwants (hfits _ _ hwants) halloc hfill hlink
    obtain ⟨c, t, ptr, hheld, hskip, hspec, -⟩ :=
      hleads.sound.read_spec hactive (Socket.isOpen_alive hopen) hsize
    obtain ⟨hall, -⟩ := Prod.mk.inj (Option.some.inj (hread.symm.trans hspec))
    have hthere := min_eq_left_iff.mp hall.symm
    have hskip0 := hleads.sound.skip
    have hbound := hleads.sound.size_le hheld
    exact hreached.collects hsound hr hleads hactive hopen hsize (.inl (by omega))

/-- Without writable events a poll closes nobody. -/
theorem tidyQueue_unwritten {queue : List PollEvent}
    (h : ∀ e ∈ queue, ∀ i readflag env, e ≠ .socket i readflag (some env)) :
    self.TidyQueue queue := by
  induction queue generalizing self with
  | nil => trivial
  | cons e queue ih =>
    have hrest := fun e he => h e (List.mem_cons_of_mem _ he)
    cases e with
    | listen accepted =>
      cases accepted with
      | failed => exact ih hrest
      | connected fd registered => exact fun _ => ih hrest
    | socket i readflag writeflag =>
      refine ⟨fun env henv => ?_, fun _ => ih hrest⟩
      exact absurd (congrArg _ henv) (h _ List.mem_cons_self i readflag env)

/-- A client comes, and five bytes from it: the block that holds them belongs to it. -/
theorem blocks_belong_first : ∃ s, (recorded 1 4096).Reachable s ∧ s.1.rb.Used 0 ∧
    ∃ l, s.1.rb.Tiled l ∧ s.1.Belongs s.2 l 0 := by
  have hrun : ((mread_create 1 4096).exec (.poll (some [.listen (.connected 5 true)]))).bind
      (fun p₁ => (p₁.exec (.poll (some [.socket 0 true none]))).bind fun p₂ =>
        (p₂.exec (.pull 4 [.bytes [0, 0, 0, 2, 65]])).map fun p₃ =>
          (p₁.queue, decide (p₃.rb.Used 0))) = some ([], true) := by
    decide +kernel
  obtain ⟨p₁, h₁, hrun⟩ := Option.bind_eq_some_iff.mp hrun
  obtain ⟨p₂, h₂, hrun⟩ := Option.bind_eq_some_iff.mp hrun
  obtain ⟨p₃, h₃, heq⟩ := Option.map_eq_some_iff.mp hrun
  obtain ⟨hq₁, hused⟩ := Prod.mk.inj heq
  have hpoll : ∀ (p : Pool) (queue : List PollEvent), p.queue = [] →
      (∀ e ∈ queue, ∀ i readflag env, e ≠ .socket i readflag (some env)) →
        p.Orderly (.poll (some queue)) := by
    intro p queue hempty hno
    refine ⟨trivial, fun queue' heq _ => ?_, fun hne => absurd hempty hne⟩
    obtain rfl := Option.some.inj heq
    exact tidyQueue_unwritten hno
  have hr₂ : ((system 1 4096).restrict Orderly).Reachable p₂ :=
    .step (.step (.init ⟨Nat.one_pos, rfl⟩) ⟨hpoll _ _ rfl (by simp), h₁⟩)
      ⟨hpoll _ _ hq₁ (by simp), h₂⟩
  -- a header fits
  have hfits : p₂.Orderly (.pull 4 [.bytes [0, 0, 0, 2, 65]]) := by
    obtain ⟨r, hr⟩ : ∃ r, (recorded 1 4096).Reachable (p₂, r) := hr₂.observe
    obtain ⟨l, hsound, -⟩ := (recorded_right (by decide) (by decide)).invariant _ hr
    exact ⟨⟨by decide, hsound.header_fits (by decide) (by decide)⟩, trivial⟩
  have hr₃ : ((system 1 4096).restrict Orderly).Reachable p₃ := .step hr₂ ⟨hfits, h₃⟩
  obtain ⟨r, hr⟩ : ∃ r, (recorded 1 4096).Reachable (p₃, r) := hr₃.observe
  obtain ⟨⟨l, hl, hall⟩, -⟩ := blocks_belong (s := (p₃, r)) (by decide) (by decide) hr
  have hused := of_decide_eq_true hused
  exact ⟨(p₃, r), hr, hused, l, hl, hall 0 hl.zero_mem hused⟩

/-- A client is closed with a partial frame in the ring, and another one gets his slot. -/
def slotReused : List PoolOp :=
  [.poll (some [.listen (.connected 5 true)]), .poll (some [.socket 0 true none]),
    .pull 4 [.bytes [0, 0, 0, 9]], .close_client 0, .poll none, .closed,
    .poll (some [.listen (.connected 6 true)]), .poll (some [.listen (.connected 7 true)]),
    .poll (some [.socket 1 true none]), .pull 4 [.bytes [0, 0, 15, 237]], .pull 4077 [],
    .poll (some [.socket 1 true none]), .pull 4 []]

/-- The block of the first client passes for one of his successor, who is closed for it. -/
theorem block_of_another : ∃ p p', (system 2 4096).Reachable p ∧ p.rb.Used 0 ∧ p.rb.id 0 = 0 ∧
    (p.sockets 0).fd = 6 ∧ (p.sockets 0).status = .CONNECTED ∧
      (∀ l, ¬Ring.Among p.rb l 0 (p.sockets 0).node (p.sockets 0).temp 0) ∧
        p.exec (.pull 4077 []) = some p' ∧ (p'.sockets 0).status = .CLOSED := by
  have hrun : (slotReused.foldlM exec (mread_create 2 4096)).bind (fun p =>
      (p.exec (.pull 4077 [])).map fun p' => ((decide (p.rb.Used 0), p.rb.id 0, (p.sockets 0).fd),
        ((p.sockets 0).node, (p.sockets 0).temp), (p.sockets 0).status, (p'.sockets 0).status)) =
      some ((true, 0, 6), (none, none), .CONNECTED, .CLOSED) := by
    decide +kernel
  obtain ⟨p, hp, hrun⟩ := Option.bind_eq_some_iff.mp hrun
  obtain ⟨p', hp', heq⟩ := Option.map_eq_some_iff.mp hrun
  simp only [Prod.mk.injEq] at heq
  obtain ⟨⟨hused, hid, hfd⟩, ⟨hnode, htemp⟩, hstatus, hclosed⟩ := heq
  have hinit : ((system 2 4096).restrict fun _ _ => True).Reachable (mread_create 2 4096) :=
    .init ⟨Nat.two_pos, rfl⟩
  refine ⟨p, p', (reachable_foldlM hinit (fun _ _ _ _ => trivial) hp).of_restrict,
    of_decide_eq_true hused, hid, hfd, hstatus, fun l => ?_, hp', hclosed⟩
  rintro ⟨c, hmem, -, hc⟩
  rw [hnode, htemp] at hc
  rcases hc with hc | hc <;> cases hc <;> cases hmem

end Pool

end DnServer.Gate
