import DnServer.Skynet.MessageQueue

/-!
# The session a blocking call locks for

`skynet.blockcall` gives two commands. `LOCK` locks the queue of the service for
the session counter plus one, and `c.send` then takes a session from the counter,
masked, and hands the message over, or raises. Nothing undoes the lock. It is the
lock of the message just when the counter did not wrap and the message went to
somebody else; after an error it stays.
-/

namespace DnServer.Skynet

variable {α : Type}

/-- `struct skynet_context`, what the two commands read and write. -/
structure Context (α : Type) where
  handle : ℕ
  session_id : BitVec 32
  init : Bool
  queue : MessageQueue α

/-- The handles and names of the node. -/
structure Node where
  HARBOR : ℕ
  registered : List ℕ
  names : List (List Char × ℕ)

/-- The first argument of `c.send`. -/
inductive Address
  | number (n : ℤ)
  | string (name : List Char)
  | other (typename : String)

def PTYPE_HARBOR : ℕ := 5

def PTYPE_SYSTEM : ℕ := 4

/-- `HANDLE_MASK` and the shift above it, on handles as numbers. -/
def HANDLE_SIZE : ℕ := 16777216

namespace Node

/-- `skynet_handle_findname`. -/
def findname (node : Node) (name : List Char) : ℕ := (node.names.lookup name).getD 0

/-- `skynet_harbor_message_isremote`: the bits above the mask are not the node's. -/
def isremote (node : Node) (handle : ℕ) : Bool :=
  handle / HANDLE_SIZE * HANDLE_SIZE ≠ node.HARBOR

end Node

/-! ## `strtoul` -/

def hexDigit (c : Char) : Option ℕ :=
  if '0' ≤ c ∧ c ≤ '9' then some (c.toNat - '0'.toNat)
  else if 'a' ≤ c ∧ c ≤ 'f' then some (c.toNat - 'a'.toNat + 10)
  else if 'A' ≤ c ∧ c ≤ 'F' then some (c.toNat - 'A'.toNat + 10)
  else none

/-- The digits in front, added to the number read so far. -/
def hexNumber : ℕ → List Char → ℕ
  | n, [] => n
  | n, c :: s =>
    match hexDigit c with
    | some d => hexNumber (16 * n + d) s
    | none => n

/-- The prefix `0x` is skipped when a digit follows. -/
def skipPrefix : List Char → List Char
  | '0' :: x :: c :: s =>
    if (x = 'x' ∨ x = 'X') ∧ (hexDigit c).isSome then c :: s else '0' :: x :: c :: s
  | s => s

def ULONG_MAX : ℕ := 18446744073709551615

/-- `(uint32_t)strtoul(s, NULL, 16)`. -/
def strtoul (s : List Char) : ℕ :=
  let s := s.dropWhile fun c => c = ' ' ∨ ('\t' ≤ c ∧ c ≤ '\r')
  let n : ℕ :=
    match s with
    | '-' :: s =>
      let n := hexNumber 0 (skipPrefix s)
      if ULONG_MAX < n then ULONG_MAX else (ULONG_MAX + 1 - n) % (ULONG_MAX + 1)
    | '+' :: s => min ULONG_MAX (hexNumber 0 (skipPrefix s))
    | s => min ULONG_MAX (hexNumber 0 (skipPrefix s))
  n % 4294967296

/-! ## The two commands -/

namespace Context

/-- `skynet_context_newsession`: the counter goes up, its low bits are the session. -/
def newsession (ctx : Context α) : Context α × ℤ :=
  let session_id := ctx.session_id + 1
  ({ ctx with session_id := session_id }, (session_id &&& 0x7fffffff).toInt)

/-- The command `LOCK`; `none` when an assertion of `skynet_mq_lock` fails. -/
def LOCK (ctx : Context α) : Option (Context α) :=
  if ctx.init = false then some ctx
  else (ctx.queue.lock (ctx.session_id + 1).toInt).map fun q => { ctx with queue := q }

end Context

/-- What a send leaves: the message somebody was given, and what the caller gets. -/
structure Sending (α : Type) where
  ctx : Context α
  message : Option (Message α)
  session : Except String ℤ

namespace Node

/-- `skynet_context_push`; `none` when an assertion of `skynet_mq_push` fails. The second part
says whether a context was found. -/
def context_push (node : Node) (ctx : Context α) (destination : ℕ) (smsg : Message α) :
    Option (Context α × Bool) :=
  if destination ∉ node.registered then some (ctx, false)
  else if destination = ctx.handle then
    (ctx.queue.push smsg).map fun q => ({ ctx with queue := q }, true)
  else some (ctx, true)

/-- `skynet_send` with `PTYPE_TAG_ALLOCSESSION`, and the test of the session in `_send`. -/
def send (node : Node) (ctx : Context α) (destination type : ℕ) (data : α) : Option (Sending α) :=
  let (ctx, session) := ctx.newsession
  let smsg : Message α := ⟨ctx.handle, session, type, data⟩
  if destination = 0 then some ⟨ctx, none, .ok session⟩
  else if node.isremote destination then
    -- `skynet_harbor_send` asserts the type
    if type ≠ PTYPE_SYSTEM ∧ type ≠ PTYPE_HARBOR then some ⟨ctx, some smsg, .ok session⟩ else none
  else
    (node.context_push ctx destination smsg).map fun
      | (ctx, true) => ⟨ctx, some smsg, .ok session⟩
      | (ctx, false) => ⟨ctx, none, .error "skynet.send session (-1) < 0"⟩

/-- `skynet_sendname` with a global name. -/
def sendname (ctx : Context α) (type : ℕ) (data : α) : Option (Sending α) :=
  let (ctx, session) := ctx.newsession
  if type ≠ PTYPE_SYSTEM ∧ type ≠ PTYPE_HARBOR then
    some ⟨ctx, some ⟨ctx.handle, session, type, data⟩, .ok session⟩
  else none

/-- What an address stands for. -/
inductive Destination
  | handle (destination : ℕ)
  | global
  | invalid (text : String)

/-- The address in `_send`. -/
def destination (node : Node) : Address → Destination
  | .number n => .handle (n % 4294967296).toNat
  | .string (':' :: name) => query (':' :: name) (strtoul name)
  | .string ('.' :: name) => query ('.' :: name) (node.findname name)
  | .string (c :: name) =>
    if '0' ≤ c ∧ c ≤ '9' then
      .invalid ("Invalid name " ++ String.ofList (c :: name) ++ ": must not start with a digit")
    else .global
  | .string [] => .global
  | .other typename => .invalid ("address must be number or string, got " ++ typename)
where
  /-- What `skynet_queryname` gives; no name stands for 0. -/
  query (name : List Char) (dest : ℕ) : Destination :=
    if dest = 0 then .invalid ("Invalid name " ++ String.ofList name) else .handle dest

/-- `c.send(addr, type, nil, data)`. -/
def c_send (node : Node) (ctx : Context α) (addr : Address) (type : ℕ) (data : α) :
    Option (Sending α) :=
  match node.destination addr with
  | .handle dest => node.send ctx dest type data
  | .global => sendname ctx type data
  | .invalid text => some ⟨ctx, none, .error text⟩

/-- `skynet.blockcall` up to its `coroutine_yield`; an error of `c.send` leaves it. -/
def blockcall (node : Node) (ctx : Context α) (addr : Address) (type : ℕ) (data : α) :
    Option (Sending α) :=
  ctx.LOCK.bind fun ctx => node.c_send ctx addr type data

end Node

/-! ## What the two sessions are -/

theorem newsession_toInt (c : BitVec 32) :
    ((c + 1) &&& 0x7fffffff).toInt = ((c + 1).toNat % 2147483648 : ℕ) := by
  have hmask : ((c + 1) &&& (0x7fffffff : BitVec 32)).toNat = (c + 1).toNat % 2147483648 := by
    rw [BitVec.toNat_and]
    exact Nat.and_two_pow_sub_one_eq_mod _ 31
  rw [BitVec.toInt_eq_toNat_of_lt (by omega), hmask]

/-- The lock is for a positive session that the message gets, while the counter does not wrap. -/
theorem lock_session_eq_iff (c : BitVec 32) :
    (0 < ((c + 1) &&& 0x7fffffff).toInt ∧ (c + 1).toInt = ((c + 1) &&& 0x7fffffff).toInt) ↔
      0 ≤ c.toInt ∧ c ≠ 0x7fffffff := by
  rw [newsession_toInt, BitVec.toInt_eq_toNat_cond, BitVec.toInt_eq_toNat_cond]
  have hc := c.isLt
  have hmax : c = 0x7fffffff ↔ c.toNat = 2147483647 := BitVec.toNat_inj.symm
  have hadd : (c + 1).toNat = (c.toNat + 1) % 4294967296 := BitVec.toNat_add c 1
  rw [ne_eq, hmax, hadd]
  split <;> split <;> omega

theorem lock_session_eq_zero_iff (c : BitVec 32) : (c + 1).toInt = 0 ↔ c = -1 := by
  constructor
  · intro h
    have hzero : c + 1 = 0 := BitVec.toInt_inj.mp h
    exact eq_neg_of_add_eq_zero_left hzero
  · rintro rfl
    rfl

/-! ## What a call leaves -/

namespace MessageQueue

/-- The message of the session `s` unlocks the queue, in the dispatch that locked it or after,
and puts it where it is dispatched again. -/
structure Awaits (q : MessageQueue α) (s : ℤ) : Prop where
  lock_session : q.lock_session = s
  during : ∀ m : Message α, m.session = s → ∃ q', (q.push m).bind pushglobal = some q' ∧
    q'.lock_session = 0 ∧ q'.in_global = .MQ_IN_GLOBAL ∧ q'.pushed = q.pushed + 1
  after : ∀ m : Message α, m.session = s → ∃ q', (q.pushglobal.bind fun q => q.push m) = some q' ∧
    q'.lock_session = 0 ∧ q'.in_global = .MQ_IN_GLOBAL ∧ q'.pushed = q.pushed + 1

end MessageQueue

/-- Right after a call: the message was sent and the queue waits for its response, or the caller
got an error and the queue is not locked. -/
def Sending.Right (r : Sending α) : Prop :=
  (∃ m, r.message = some m ∧ r.session = .ok m.session ∧ 0 < m.session ∧
    r.ctx.queue.Awaits m.session) ∨
  (r.message = none ∧ (∃ text, r.session = .error text) ∧ r.ctx.queue.lock_session = 0)

namespace Node

/-- The message is handed to somebody else than the caller. -/
def Goes (node : Node) (self : ℕ) (addr : Address) (type : ℕ) : Prop :=
  match node.destination addr with
  | .handle dest => dest ≠ 0 ∧
    if node.isremote dest then type ≠ PTYPE_SYSTEM ∧ type ≠ PTYPE_HARBOR
    else dest ∈ node.registered ∧ dest ≠ self
  | .global => type ≠ PTYPE_SYSTEM ∧ type ≠ PTYPE_HARBOR
  | .invalid _ => False

/-- The address is no address, or of a service of the node that does not exist. -/
def Fails (node : Node) (addr : Address) : Prop :=
  match node.destination addr with
  | .handle dest => dest ≠ 0 ∧ node.isremote dest = false ∧ dest ∉ node.registered
  | .global => False
  | .invalid _ => True

end Node

variable {q q' : MessageQueue α} {s : ℤ} {m : Message α}

namespace MessageQueue

theorem pushglobal_unlocked (h0 : q.lock_session = 0) (hg : q.in_global = .MQ_DISPATCHING) :
    q.pushglobal = some { q.globalmq_push with in_global := .MQ_IN_GLOBAL } := by
  cases q
  cases hg
  cases h0
  rfl

theorem pushglobal_locked (hs : q.lock_session ≠ 0) (hg : q.in_global = .MQ_DISPATCHING) :
    q.pushglobal = some { q with in_global := .MQ_LOCKED } := by
  unfold pushglobal
  rw [if_neg (by rw [hg]; decide), if_pos hg]
  exact congrArg some (if_neg hs)

/-- A queue that was just locked waits for the session, unless that is 0. -/
theorem awaits_of_locked (hs : s ≠ 0) (hlock : q.lock_session = s)
    (hg : q.in_global = .MQ_DISPATCHING) : q.Awaits s where
  lock_session := hlock
  during := by
    intro m hm
    obtain ⟨-, hkeep, hpushed⟩ := putfront_flags (q := q) (m := m)
    rw [(push_answer (hlock ▸ hs) (hm.trans hlock.symm)).1 hg, Option.bind_some]
    exact ⟨_, pushglobal_unlocked rfl (hkeep.trans hg), rfl, rfl, congrArg (· + 1) hpushed⟩
  after := by
    intro m hm
    rw [pushglobal_locked (hlock ▸ hs) hg, Option.bind_some]
    generalize hq : ({ q with in_global := .MQ_LOCKED } : MessageQueue α) = q₁
    have hlock₁ : q₁.lock_session = s := by rw [← hq, hlock]
    have hg₁ : q₁.in_global = .MQ_LOCKED := by rw [← hq]
    have hpushed₁ : q₁.pushed = q.pushed := by rw [← hq]
    obtain ⟨-, -, hpushed⟩ := putfront_flags (q := q₁) (m := m)
    exact ⟨_, (push_answer (hlock₁ ▸ hs) (hm.trans hlock₁.symm)).2 hg₁, rfl, rfl,
      congrArg (· + 1) (hpushed.trans hpushed₁)⟩

/-- A message that went into the queue itself is not waited for there. -/
theorem push_not_locked (hp : q.push m = some q') (hm : 0 < m.session) :
    q'.lock_session ≠ m.session := by
  obtain ⟨hkeep, -, -⟩ := pushtail_flags (q := q) (m := m)
  unfold push at hp
  by_cases hown : q.lock_session ≠ 0 ∧ m.session = q.lock_session
  · rw [if_pos hown] at hp
    unfold pushhead unlock at hp
    split at hp
    · obtain rfl := Option.some.inj hp
      exact ne_of_lt hm
    · obtain rfl := Option.some.inj hp
      exact ne_of_lt hm
    · cases hp
  · have hne : q.lock_session ≠ m.session := by
      intro heq
      exact hown ⟨by omega, heq.symm⟩
    rw [if_neg hown] at hp
    simp only at hp
    split at hp
    · obtain rfl := Option.some.inj hp
      exact fun heq => hne (hkeep.symm.trans heq)
    · obtain rfl := Option.some.inj hp
      exact fun heq => hne (hkeep.symm.trans heq)

end MessageQueue

variable {node : Node} {ctx : Context α} {addr : Address} {type : ℕ} {data : α} {r : Sending α}

/-- The session of the message that `c.send` sends. -/
def Context.next (ctx : Context α) : ℤ := ctx.newsession.2

namespace Node

/-! ## The three ends of `c.send` -/

theorem c_send_goes (h : node.Goes ctx.handle addr type) :
    node.c_send ctx addr type data = some ⟨ctx.newsession.1,
      some ⟨ctx.handle, ctx.next, type, data⟩, .ok ctx.next⟩ := by
  unfold Goes at h
  unfold c_send
  split at h
  case h_1 dest _ =>
    obtain ⟨hzero, h⟩ := h
    show node.send ctx dest type data = _
    unfold send
    simp only
    rw [if_neg hzero]
    split at h
    · rename_i hremote
      rw [if_pos hremote, if_pos h]
      rfl
    · rename_i hremote
      have hself : dest ≠ ctx.newsession.1.handle := h.2
      rw [if_neg hremote, context_push, if_neg (not_not.mpr h.1), if_neg hself]
      rfl
  case h_2 => exact if_pos h
  case h_3 => exact h.elim

theorem c_send_fails (ctx : Context α) (type : ℕ) (data : α) (h : node.Fails addr) :
    ∃ ctx' text, node.c_send ctx addr type data = some ⟨ctx', none, .error text⟩ ∧
      ctx'.queue = ctx.queue := by
  unfold Fails at h
  unfold c_send
  split at h
  case h_1 dest _ =>
    obtain ⟨hzero, hremote, hdead⟩ := h
    refine ⟨ctx.newsession.1, "skynet.send session (-1) < 0", ?_, rfl⟩
    show node.send ctx dest type data = _
    unfold send
    simp only
    rw [if_neg hzero, if_neg (by simp [hremote]), context_push, if_pos hdead]
    rfl
  case h_2 => exact h.elim
  case h_3 text _ => exact ⟨ctx, text, rfl, rfl⟩

/-- Any other send is a message to the caller itself, or to nobody without an error. -/
theorem c_send_wrong (hg : ¬node.Goes ctx.handle addr type) (hf : ¬node.Fails addr)
    (h : node.c_send ctx addr type data = some r) : ¬r.Right := by
  unfold Goes at hg
  unfold Fails at hf
  unfold c_send at h
  cases hd : node.destination addr with
  | handle dest =>
    rw [hd] at hg hf h
    replace h : node.send ctx dest type data = some r := h
    replace hg : ¬(dest ≠ 0 ∧ if node.isremote dest then type ≠ PTYPE_SYSTEM ∧ type ≠ PTYPE_HARBOR
      else dest ∈ node.registered ∧ dest ≠ ctx.handle) := hg
    replace hf : ¬(dest ≠ 0 ∧ node.isremote dest = false ∧ dest ∉ node.registered) := hf
    unfold send at h
    simp only at h
    by_cases hzero : dest = 0
    · -- nobody is 0, and the session comes back as if it were
      rw [if_pos hzero] at h
      obtain rfl := Option.some.inj h
      rintro (⟨m, hm, -⟩ | ⟨-, ⟨text, ht⟩, -⟩)
      · cases hm
      · cases ht
    rw [if_neg hzero] at h
    by_cases hremote : node.isremote dest = true
    · rw [if_pos hremote] at h hg
      rw [if_neg fun ht => hg ⟨hzero, ht⟩] at h
      cases h
    rw [if_neg hremote] at h hg
    have halive : dest ∈ node.registered := by
      by_contra hdead
      exact hf ⟨hzero, by simpa using hremote, hdead⟩
    have hself : dest = ctx.newsession.1.handle := by
      by_contra hne
      exact hg ⟨hzero, halive, hne⟩
    -- the request comes into the queue that waits for its answer
    rw [context_push, if_neg (not_not.mpr halive), if_pos hself, Option.map_map] at h
    obtain ⟨q', hp, rfl⟩ := Option.map_eq_some_iff.mp h
    rintro (⟨m, hm, -, hpos, hawaits⟩ | ⟨hm, -⟩)
    · obtain rfl := Option.some.inj hm
      exact MessageQueue.push_not_locked hp hpos hawaits.lock_session
    · cases hm
  | global =>
    rw [hd] at hg h
    rw [show sendname ctx type data = none from if_neg hg] at h
    cases h
  | invalid text =>
    rw [hd] at hf
    exact absurd trivial hf

/-- What `c.send` comes to, from a queue that is locked or not. -/
theorem c_send_right_iff :
    (∃ r, node.c_send ctx addr type data = some r ∧ r.Right) ↔
      (node.Goes ctx.handle addr type ∧ 0 < ctx.next ∧ ctx.queue.Awaits ctx.next) ∨
        (node.Fails addr ∧ ctx.queue.lock_session = 0) := by
  by_cases hg : node.Goes ctx.handle addr type
  · have hnf : ¬node.Fails addr := by
      intro hf
      obtain ⟨ctx', text, hsend, -⟩ := c_send_fails ctx type data hf
      rw [c_send_goes hg] at hsend
      cases hsend
    rw [c_send_goes hg]
    constructor
    · rintro ⟨r, hr, hright⟩
      obtain rfl := Option.some.inj hr
      obtain ⟨m, hm, -, hpos, hawaits⟩ | ⟨hm, -⟩ := hright
      · obtain rfl := Option.some.inj hm
        exact .inl ⟨hg, hpos, hawaits⟩
      · cases hm
    · rintro (⟨-, hpos, hawaits⟩ | ⟨hf, -⟩)
      · exact ⟨_, rfl, .inl ⟨_, rfl, rfl, hpos, hawaits⟩⟩
      · exact absurd hf hnf
  · by_cases hf : node.Fails addr
    · obtain ⟨ctx', text, hsend, hqueue⟩ := c_send_fails ctx type data hf
      rw [hsend, ← hqueue]
      constructor
      · rintro ⟨r, hr, hright⟩
        obtain rfl := Option.some.inj hr
        obtain ⟨m, hm, -⟩ | ⟨-, -, hlock⟩ := hright
        · cases hm
        · exact .inr ⟨hf, hlock⟩
      · rintro (⟨hg', -⟩ | ⟨-, hlock⟩)
        · exact absurd hg' hg
        · exact ⟨_, rfl, .inr ⟨rfl, ⟨text, rfl⟩, hlock⟩⟩
    · constructor
      · rintro ⟨r, hr, hright⟩
        exact absurd hright (c_send_wrong hg hf hr)
      · rintro (⟨hg', -⟩ | ⟨hf', -⟩)
        · exact absurd hg' hg
        · exact absurd hf' hf

/-! ## The blocking call -/

/-- A call from a handler ends right just when the counter plus one is a session and the message
goes to somebody else, or when the send fails and nothing had been locked for. -/
theorem blockcall_right_iff (node : Node) (ctx : Context α) (addr : Address) (type : ℕ) (data : α)
    (h0 : ctx.queue.lock_session = 0) (hg : ctx.queue.in_global = .MQ_IN_GLOBAL) :
    (∃ r, node.blockcall ctx addr type data = some r ∧ r.Right) ↔
      (ctx.init = true ∧ 0 ≤ ctx.session_id.toInt ∧ ctx.session_id ≠ 0x7fffffff ∧
        node.Goes ctx.handle addr type) ∨
      (node.Fails addr ∧ (ctx.init = false ∨ ctx.session_id = -1)) := by
  unfold blockcall Context.LOCK
  cases hinit : ctx.init with
  | false =>
    -- nothing is locked, so nothing waits for the response
    rw [if_pos rfl, Option.bind_some, c_send_right_iff]
    have hnot : 0 < ctx.next → ¬ctx.queue.Awaits ctx.next := by
      intro hpos hawaits
      have := hawaits.lock_session
      omega
    constructor
    · rintro (⟨-, hpos, hawaits⟩ | ⟨hf, -⟩)
      · exact absurd hawaits (hnot hpos)
      · exact .inr ⟨hf, .inl rfl⟩
    · rintro (⟨hfalse, -⟩ | ⟨hf, -⟩)
      · cases hfalse
      · exact .inr ⟨hf, h0⟩
  | true =>
    have hlocked : ctx.queue.lock (ctx.session_id + 1).toInt = some { ctx.queue with
        in_global := .MQ_DISPATCHING, lock_session := (ctx.session_id + 1).toInt } :=
      if_pos ⟨h0, hg⟩
    rw [if_neg (by decide), hlocked, Option.map_some, Option.bind_some, c_send_right_iff]
    generalize hq : ({ ctx.queue with
      in_global := .MQ_DISPATCHING, lock_session := (ctx.session_id + 1).toInt } :
        MessageQueue α) = q
    have hlock : q.lock_session = (ctx.session_id + 1).toInt := by rw [← hq]
    have hdispatching : q.in_global = .MQ_DISPATCHING := by rw [← hq]
    have hsession : (0 < ctx.next ∧ q.Awaits ctx.next) ↔
        0 ≤ ctx.session_id.toInt ∧ ctx.session_id ≠ 0x7fffffff := by
      rw [← lock_session_eq_iff]
      constructor
      · rintro ⟨hpos, hawaits⟩
        exact ⟨hpos, hlock.symm.trans hawaits.lock_session⟩
      · rintro ⟨hpos, heq⟩
        exact ⟨hpos, MessageQueue.awaits_of_locked (ne_of_gt hpos) (hlock.trans heq) hdispatching⟩
    constructor
    · rintro (⟨hgoes, hright⟩ | ⟨hf, hzero⟩)
      · obtain ⟨hc, hmax⟩ := hsession.mp hright
        exact .inl ⟨rfl, hc, hmax, hgoes⟩
      · exact .inr ⟨hf, .inr ((lock_session_eq_zero_iff _).mp (hlock.symm.trans hzero))⟩
    · rintro (⟨-, hc, hmax, hgoes⟩ | ⟨hf, hfalse | hc⟩)
      · exact .inl ⟨hgoes, hsession.mpr ⟨hc, hmax⟩⟩
      · cases hfalse
      · exact .inr ⟨hf, hlock.trans ((lock_session_eq_zero_iff _).mpr hc)⟩

/-- A service that calls another one of its node. -/
theorem blockcall_right_iff_alive :
    ∃ r, blockcall ⟨0, [1, 2], []⟩ ⟨1, 0, true, MessageQueue.create 1⟩ (.number 2) 10 7 = some r ∧
      r.Right :=
  (blockcall_right_iff ⟨0, [1, 2], []⟩ ⟨1, 0, true, MessageQueue.create 1⟩ (.number 2) 10 7
    rfl rfl).mpr (.inl ⟨rfl, by decide, by decide,
      two_ne_zero, by decide, by decide⟩)

/-- A call to a service that is gone leaves the queue locked for a session nobody was sent. -/
theorem blockcall_wrong_dead :
    ¬∀ (node : Node) (ctx : Context ℕ) (addr : Address) (type data : ℕ),
      ctx.queue.lock_session = 0 → ctx.queue.in_global = .MQ_IN_GLOBAL →
        ∃ r, node.blockcall ctx addr type data = some r ∧ r.Right := by
  intro hall
  obtain ⟨r, hr, hright⟩ := hall ⟨0, [1], []⟩ ⟨1, 0, true, MessageQueue.create 1⟩ (.number 2) 10 7
    rfl rfl
  obtain rfl := Option.some.inj hr
  obtain ⟨m, hm, -⟩ | ⟨-, -, hlock⟩ := hright
  · cases hm
  · exact absurd hlock (by decide)

end Node

end DnServer.Skynet
