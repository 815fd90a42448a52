import DnServer.Redis.Stream
import DnServer.Redis.Ledger

/-!
# Batch mode

`batch_mode`, `batch_count` and `batch_reply` hold, for each service, one job of
the ledger in pieces: the mode or the session of its `end`, the replies still
missing, and what its replies amount to. Every message and every reply keeps
them so, and the responses sent are those of the ledger, in the same order.

* `reply`: a reply changes the slot of its service as it changes the job in the ledger,
  in each mode; so `Refines` holds in every run.
* `jobs_answered_once`: what the ledger says of its jobs, of the responses.
-/

namespace DnServer.Redis

open DnServer.Lib
open DnServer.Lib.Handler (after)

/-! ## What the tables hold -/

/-- The entries of one service in the three tables. -/
structure Slot where
  mode : Option Mode
  count : Option ℤ
  reply : Option BatchReply
  deriving DecidableEq, Repr

def Slot.idle : Slot := ⟨none, none, none⟩

def Client.slot (c : Client) (a : Address) : Slot :=
  ⟨c.batch_mode.get? a, c.batch_count.get? a, c.batch_reply.get? a⟩

def Kind.mode : Kind → Option Mode
  | .plain => none
  | .read => some .read
  | .write => some .write

namespace Job

/-- What `batch_reply` has collected. -/
def collected (j : Job) : Option BatchReply :=
  match j.failure with
  | some e => some (.other e)
  | none => if j.kind = .read then some (.table (j.replies.map Prod.snd)) else none

def slot (j : Job) : Slot where
  mode := match j.ended with
    | some session => some (.session session)
    | none => j.kind.mode
  count := some (j.asked - j.replies.length)
  reply := j.collected

theorem failure_append (j : Job) (r : Bool × Value) :
    ({ j with replies := j.replies ++ [r] } : Job).failure =
      if r.1 then j.failure else some r.2 := by
  unfold failure
  rw [List.filter_append]
  cases hr : r.1 with
  | true => simp [hr]
  | false => simp [hr]

/-- An error reply carries its text. -/
def ErrorTexts (j : Job) : Prop := ∀ r ∈ j.replies, r.1 = false → ∃ s, r.2 = .string s

theorem ErrorTexts.failure {j : Job} (h : j.ErrorTexts) {e : Value} (he : j.failure = some e) :
    ∃ s, e = .string s := by
  obtain ⟨r, hr, rfl⟩ := Option.map_eq_some_iff.mp he
  have hmem := List.mem_filter.mp (List.mem_of_getLast? hr)
  exact h r hmem.1 (by simpa using hmem.2)

/-- What `batch_close` makes of the collected replies is the result of the batch. -/
theorem close_eq {j : Job} (h : j.ErrorTexts) (hkind : j.kind ≠ .plain) {session : Session}
    (hended : j.ended = some session) :
    (⟨j.address, session, !(j.collected.any BatchReply.isString),
      (j.collected.map BatchReply.pack).getD (.value .nil)⟩ : Response) = j.response := by
  unfold response collected result
  rw [hended]
  cases hf : j.failure with
  | some e =>
    obtain ⟨s, rfl⟩ := h.failure hf
    cases hk : j.kind with
    | plain => exact absurd hk hkind
    | read => rfl
    | write => rfl
  | none =>
    cases hk : j.kind with
    | plain => exact absurd hk hkind
    | read => rfl
    | write => rfl

end Job

namespace Ledger

def slot (L : Ledger) (a : Address) : Slot := ((L.inHand a).map Job.slot).getD .idle

theorem slot_of_none {L : Ledger} {a : Address} (h : L.current.get? a = none) :
    L.slot a = .idle := by
  unfold slot inHand
  rw [h]
  rfl

theorem slot_of_some {L : Ledger} {a : Address} {i : ℕ} {j : Job}
    (h : L.current.get? a = some i) (hj : L.jobs[i]? = some j) : L.slot a = j.slot := by
  unfold slot inHand
  rw [h, Option.bind_some, hj]
  rfl

theorem slot_settle_pending (L : Ledger) (pending : List ℕ) (i : ℕ) (j : Job) (a : Address) :
    ({ L with pending := pending }.settle i j).slot a = (L.settle i j).slot a := by
  unfold settle
  split <;> rfl

/-- A batch that moves on moves the slot of its service and no other. -/
theorem slot_settle {L : Ledger} (h : L.Ok) {a : Address} {i : ℕ} {j : Job}
    (hc : L.current.get? a = some i) (haddr : j.address = a) (hkind : j.kind ≠ .plain)
    (b : Address) :
    (L.settle i j).slot b =
      if b = a then if j.Answered then .idle else j.slot else L.slot b := by
  obtain ⟨x, hx, hxa, -, -⟩ := h.inHand a i hc
  have hi := lt_of_getElem? hx
  have hother : b ≠ a → ∀ k, L.current.get? b = some k → (L.jobs.set i j)[k]? = L.jobs[k]? := by
    intro hb k hk
    apply List.getElem?_set_ne
    rintro rfl
    obtain ⟨y, hy, hya, -⟩ := h.inHand b i hk
    rw [hx] at hy
    obtain rfl := Option.some.inj hy
    exact hb (hya ▸ hxa)
  unfold settle
  by_cases hb : b = a
  · subst hb
    rw [if_pos rfl]
    split
    · rw [haddr]
      exact slot_of_none (Table.get?_erase_self _ _)
    · exact slot_of_some hc (List.getElem?_set_self hi)
  · rw [if_neg hb]
    have hcur : ∀ L' : Ledger, L'.current.get? b = L.current.get? b →
        L'.jobs = L.jobs.set i j → L'.slot b = L.slot b := by
      intro L' hcur hjobs
      unfold slot inHand
      rw [hcur, hjobs]
      cases hk : L.current.get? b with
      | none => rfl
      | some k => rw [Option.bind_some, Option.bind_some, hother hb k hk]
    split
    · apply hcur _ _ rfl
      rw [haddr]
      exact Table.get?_erase_ne _ hb
    · exact hcur _ rfl rfl

/-- A plain request that is answered moves no slot. -/
theorem slot_settle_plain {L : Ledger} (h : L.Ok) {i : ℕ} {b j : Job}
    (hb : L.jobs[i]? = some b) (hbk : b.kind = .plain) (hjk : j.kind = .plain) (a : Address) :
    (L.settle i j).slot a = L.slot a := by
  have hcur : ∀ L' : Ledger, L'.current = L.current → L'.jobs = L.jobs.set i j →
      L'.slot a = L.slot a := by
    intro L' hcur hjobs
    unfold slot inHand
    rw [hcur, hjobs]
    cases hk : L.current.get? a with
    | none => rfl
    | some k =>
      rw [Option.bind_some, Option.bind_some, List.getElem?_set_ne]
      rintro rfl
      obtain ⟨y, hy, -, hyk, -⟩ := h.inHand a i hk
      rw [hb] at hy
      obtain rfl := Option.some.inj hy
      exact hyk hbk
  unfold settle
  split
  · exact hcur _ rfl rfl
  · exact hcur _ rfl rfl

end Ledger

/-! ## The refinement -/

/-- A queued request is one of the job. -/
def Belongs (jobs : List Job) (q : Request) (i : ℕ) : Prop :=
  ∃ j, jobs[i]? = some j ∧ q.address = j.address ∧
    (j.kind ≠ .plain → q.batch = j.kind.mode) ∧
    (j.kind = .plain → (q.batch ≠ some .read ∧ q.batch ≠ some .write) ∧
      j.ended = some q.session)

/-- The client holds what the ledger says. -/
structure Refines (c : Client) (L : Ledger) : Prop where
  ok : L.Ok
  out : c.out = L.log.map Prod.snd
  queue : List.Forall₂ (Belongs L.jobs) c.request_queue L.pending
  slots : ∀ a, c.slot a = L.slot a
  texts : ∀ (i : ℕ) (j : Job), L.jobs[i]? = some j → j.ErrorTexts

inductive BatchEvent
  | text (session : Session) (address : Address) (mode : BatchOp)
  | ask (session : Session) (address : Address) (message : List Bytes) (ok : Bool)
  /-- The reply to the oldest outstanding request arrives. -/
  | reply (r : Reply)
  deriving DecidableEq, Repr

def Client.take (c : Client) : BatchEvent → Client
  | .text session address mode => after (c.text session address mode)
  | .ask session address message ok => after (c.lua session address message ok)
  | .reply r => after (c.response r.decoded.1 r.decoded.2)

/-- What an event means for the jobs. -/
def Ledger.note (L : Ledger) : BatchEvent → Ledger
  | .text session address .end => L.ended address session
  | .text _ address .read => L.opened address .read
  | .text _ address .write => L.opened address .write
  | .text _ _ .other => L
  | .ask session address _ _ => L.asked address session
  | .reply r => L.replied r.decoded

/-! ## What the code does to the slots -/

namespace Client

theorem batch_close_slot (c : Client) (a : Address) (session : Session) (b : Address) :
    (c.batch_close a session).slot b = if b = a then .idle else c.slot b := by
  by_cases hb : b = a
  · subst hb
    simp [slot, batch_close, Slot.idle]
  · simp [slot, batch_close, hb, Table.get?_erase_ne]

theorem batch_close_out (c : Client) (a : Address) (session : Session) :
    (c.batch_close a session).out = c.out ++
      [⟨a, session, !((c.slot a).reply.any BatchReply.isString),
        ((c.slot a).reply.map BatchReply.pack).getD (.value .nil)⟩] := rfl

/-- The count goes down; at the last reply after the `end` the batch is closed. -/
theorem batch_dec_last {c : Client} {a : Address} {session : Session}
    (h : c.batch_count.get? a = some 1) (hm : c.batch_mode.get? a = some (.session session)) :
    c.batch_dec a = .ok
      (batch_close { c with batch_count := c.batch_count.set a (1 - 1) } a session) := by
  simp only [batch_dec, h, Handler.index_some, Handler.ok_bind, if_true, hm]
  rfl

theorem batch_dec_more {c : Client} {a : Address} {bc : ℤ} (h : c.batch_count.get? a = some bc)
    (hm : bc = 1 → c.batch_mode.get? a = some .read ∨ c.batch_mode.get? a = some .write) :
    c.batch_dec a = .ok { c with batch_count := c.batch_count.set a (bc - 1) } := by
  simp only [batch_dec, h, Handler.index_some, Handler.ok_bind]
  by_cases h1 : bc = 1
  · rcases hm h1 with hm | hm <;> simp only [if_pos h1, hm] <;> rfl
  · simp only [if_neg h1]
    rfl

end Client

namespace Refines

variable {c : Client} {L : Ledger}

theorem slot_idle (h : Refines c L) {a : Address} (hc : L.current.get? a = none) :
    c.slot a = .idle := by rw [h.slots, Ledger.slot_of_none hc]

theorem slot_job (h : Refines c L) {a : Address} {i : ℕ} {j : Job}
    (hc : L.current.get? a = some i) (hj : L.jobs[i]? = some j) : c.slot a = j.slot := by
  rw [h.slots, Ledger.slot_of_some hc hj]

/-- Queued requests belong to their jobs also when a job has moved on. -/
theorem queue_set (h : Refines c L) {i : ℕ} {b j : Job} (hb : L.jobs[i]? = some b)
    (haddr : j.address = b.address) (hkind : j.kind = b.kind)
    (hended : b.kind = .plain → j.ended = b.ended) :
    List.Forall₂ (Belongs (L.jobs.set i j)) c.request_queue L.pending := by
  refine h.queue.imp ?_
  rintro q k ⟨x, hx, hqa, hqb, hqp⟩
  rcases eq_or_ne k i with rfl | hk
  · rw [hb] at hx
    obtain rfl := Option.some.inj hx
    refine ⟨j, List.getElem?_set_self (Ledger.lt_of_getElem? hb), hqa.trans haddr.symm, ?_, ?_⟩
    · rw [hkind]
      exact hqb
    · rw [hkind]
      intro hp
      rw [hended hp]
      exact hqp hp
  · exact ⟨x, (List.getElem?_set_ne hk.symm).trans hx, hqa, hqb, hqp⟩

theorem texts_set (h : Refines c L) {i : ℕ} {b j : Job} (hb : L.jobs[i]? = some b)
    (hj : j.ErrorTexts) : ∀ (k : ℕ) (x : Job), (L.jobs.set i j)[k]? = some x → x.ErrorTexts := by
  intro k x hx
  rcases eq_or_ne k i with rfl | hk
  · rw [List.getElem?_set_self (Ledger.lt_of_getElem? hb)] at hx
    obtain rfl := Option.some.inj hx
    exact hj
  · rw [List.getElem?_set_ne hk.symm] at hx
    exact h.texts k x hx

/-- A new job is appended; only its own service's slot may change. -/
theorem slot_appended {L M : Ledger} (h : L.Ok) {j : Job} (hjobs : M.jobs = L.jobs ++ [j])
    {a : Address} (hcur : M.current.get? a = L.current.get? a) : M.slot a = L.slot a := by
  unfold Ledger.slot Ledger.inHand
  rw [hcur, hjobs]
  cases hk : L.current.get? a with
  | none => rfl
  | some k =>
    obtain ⟨x, hx, -⟩ := h.inHand a k hk
    rw [Option.bind_some, Option.bind_some,
      List.getElem?_append_left (Ledger.lt_of_getElem? hx)]

theorem queue_appended (h : Refines c L) (j : Job) :
    List.Forall₂ (Belongs (L.jobs ++ [j])) c.request_queue L.pending := by
  refine h.queue.imp ?_
  rintro q k ⟨x, hx, hrest⟩
  exact ⟨x, by rw [List.getElem?_append_left (Ledger.lt_of_getElem? hx), hx], hrest⟩

theorem texts_appended (h : Refines c L) {j : Job} (hj : j.replies = []) :
    ∀ (k : ℕ) (x : Job), (L.jobs ++ [j])[k]? = some x → x.ErrorTexts := by
  intro k x hx
  rcases List.mem_append.mp (List.mem_of_getElem? hx) with hmem | hmem
  · obtain ⟨i, hi⟩ := List.mem_iff_getElem?.mp hmem
    exact h.texts i x hi
  · rw [List.mem_singleton.mp hmem]
    intro r hr
    rw [hj] at hr
    cases hr

/-- Opening a batch where none is in hand. -/
theorem open_idle (h : Refines c L) {a : Address} {kind : Kind} (hkind : kind ≠ .plain)
    (hc : L.current.get? a = none) {c' : Client} (hout : c'.out = c.out)
    (hqueue : c'.request_queue = c.request_queue)
    (hself : c'.slot a = (⟨a, kind, 0, [], none⟩ : Job).slot)
    (hother : ∀ b, b ≠ a → c'.slot b = c.slot b) : Refines c' (L.opened a kind) := by
  have hok := h.ok.opened a hkind
  unfold Ledger.opened at hok ⊢
  rw [hc] at hok ⊢
  exact {
    ok := hok
    out := hout.trans h.out
    queue := hqueue ▸ h.queue_appended _
    slots := by
      intro b
      rcases eq_or_ne b a with rfl | hb
      · rw [hself]
        exact (Ledger.slot_of_some (Table.get?_set_self _ _ _) (by simp)).symm
      · rw [hother b hb, h.slots]
        exact (slot_appended h.ok rfl (Table.get?_set_ne _ _ hb)).symm
    texts := h.texts_appended rfl }

/-- The mode of a batch that is not ended yet. -/
theorem open_mode (h : Refines c L) {a : Address} {i : ℕ} {b : Job}
    (hc : L.current.get? a = some i) (hb : L.jobs[i]? = some b) (hbk : b.kind ≠ .plain)
    (hopen : b.ended = none) :
    c.batch_mode.get? a = b.kind.mode ∧
      (c.batch_mode.get? a = some .read ∨ c.batch_mode.get? a = some .write) := by
  have hm : c.batch_mode.get? a = b.kind.mode := by
    have := congrArg Slot.mode (h.slot_job hc hb)
    simpa [Client.slot, Job.slot, hopen] using this
  refine ⟨hm, ?_⟩
  rw [hm]
  cases hk : b.kind with
  | plain => exact absurd hk hbk
  | read => exact .inl rfl
  | write => exact .inr rfl

/-- And of one that is. -/
theorem ended_mode (h : Refines c L) {a : Address} {i : ℕ} {b : Job}
    (hc : L.current.get? a = some i) (hb : L.jobs[i]? = some b) (hended : b.ended ≠ none) :
    ∃ s, c.batch_mode.get? a = some (.session s) := by
  obtain ⟨s, hs⟩ := Option.ne_none_iff_exists'.mp hended
  have := congrArg Slot.mode (h.slot_job hc hb)
  exact ⟨s, by simpa [Client.slot, Job.slot, hs] using this⟩

/-- The mode of a service that has a batch in hand. -/
theorem mode_in_hand (h : Refines c L) {a : Address} {i : ℕ} (hc : L.current.get? a = some i) :
    ∃ m, c.batch_mode.get? a = some m := by
  obtain ⟨j, hj, -, hk, -⟩ := h.ok.inHand a i hc
  by_cases hopen : j.ended = none
  · exact (h.open_mode hc hj hk hopen).2.elim (fun hm => ⟨_, hm⟩) fun hm => ⟨_, hm⟩
  · obtain ⟨s, hs⟩ := h.ended_mode hc hj hopen
    exact ⟨_, hs⟩

theorem open_in_hand (h : Refines c L) {a : Address} {i : ℕ} (hc : L.current.get? a = some i)
    (session : Session) {op : BatchOp} (hop : op ≠ .end) :
    after (c.text session a op) = c := by
  obtain ⟨m, hm⟩ := h.mode_in_hand hc
  cases op with
  | «end» => exact absurd rfl hop
  | read => simp [Client.text, hm]
  | write => simp [Client.text, hm]
  | other => simp [Client.text, hm]

theorem text_read (h : Refines c L) (session : Session) (a : Address) :
    Refines (after (c.text session a .read)) (L.opened a .read) := by
  cases hc : L.current.get? a with
  | some i =>
    rw [h.open_in_hand hc session (by decide), Ledger.opened, hc]
    exact h
  | none =>
    have hidle := h.slot_idle hc
    have hm : c.batch_mode.get? a = none := congrArg Slot.mode hidle
    simp only [Client.text, hm, if_true, Handler.after_ok]
    refine h.open_idle (by decide) hc rfl rfl ?_ ?_
    · simp [Client.slot, Job.slot, Job.collected, Job.failure, Kind.mode]
    · intro b hb
      simp [Client.slot, Table.get?_set_ne, hb]

theorem text_write (h : Refines c L) (session : Session) (a : Address) :
    Refines (after (c.text session a .write)) (L.opened a .write) := by
  cases hc : L.current.get? a with
  | some i =>
    rw [h.open_in_hand hc session (by decide), Ledger.opened, hc]
    exact h
  | none =>
    have hidle := h.slot_idle hc
    have hm : c.batch_mode.get? a = none := congrArg Slot.mode hidle
    have hr : c.batch_reply.get? a = none := congrArg Slot.reply hidle
    simp only [Client.text, hm, if_true, Handler.after_ok]
    refine h.open_idle (by decide) hc rfl rfl ?_ ?_
    · simp [Client.slot, Job.slot, Job.collected, Job.failure, Kind.mode, hr]
    · intro b hb
      simp [Client.slot, Table.get?_set_ne, hb]

theorem text_other (h : Refines c L) (session : Session) (a : Address) :
    Refines (after (c.text session a .other)) L := by
  have heq : after (c.text session a .other) = c := by
    simp only [Client.text]
    split <;> rfl
  rwa [heq]

/-! ## A batch moves on -/

/-- A batch in hand moves on and the code does the same to its slot: whether it is
answered with that or not. -/
theorem settle_batch (h : Refines c L) {a : Address} {i : ℕ} {b j : Job}
    (hc : L.current.get? a = some i) (hb : L.jobs[i]? = some b)
    (haddr : j.address = b.address) (hkind : j.kind = b.kind) (hj : j.ErrorTexts)
    {p : List ℕ} (hok : ({ L with pending := p }.settle i j).Ok) {d : Client}
    (hqueue : List.Forall₂ (Belongs (L.jobs.set i j)) d.request_queue p)
    (hout : d.out = c.out ++ if j.Answered then [j.response] else [])
    (hself : d.slot a = if j.Answered then .idle else j.slot)
    (hother : ∀ b, b ≠ a → d.slot b = c.slot b) :
    Refines d ({ L with pending := p }.settle i j) := by
  obtain ⟨x, hx, hxa, hxk, -⟩ := h.ok.inHand a i hc
  rw [hb] at hx
  obtain rfl := Option.some.inj hx
  exact {
    ok := hok
    out := by
      rw [hout, h.out, Ledger.settle_log, List.map_append]
      split <;> rfl
    queue := by
      rw [Ledger.settle_jobs, Ledger.settle_pending]
      exact hqueue
    slots := by
      intro b'
      rw [Ledger.slot_settle_pending,
        Ledger.slot_settle h.ok hc (haddr.trans hxa) (hkind ▸ hxk) b']
      split
      · rename_i hb'
        rw [hb', hself]
      · rename_i hb'
        rw [hother b' hb', h.slots]
    texts := by
      rw [Ledger.settle_jobs]
      exact h.texts_set hb hj }

/-- Closing the batch of `a` once its job is ended and complete. -/
theorem close_out {a : Address} {session : Session} {j : Job} {c : Client} (haddr : j.address = a)
    (hj : j.ErrorTexts) (hkind : j.kind ≠ .plain) (hended : j.ended = some session)
    (hreply : (c.slot a).reply = j.collected) :
    (c.batch_close a session).out = c.out ++ [j.response] := by
  rw [Client.batch_close_out, hreply, ← Job.close_eq hj hkind hended, haddr]

theorem text_end (h : Refines c L) (session : Session) (a : Address) :
    Refines (after (c.text session a .end)) (L.ended a session) := by
  have hok := h.ok.ended a session
  unfold Ledger.ended at hok ⊢
  cases hc : L.current.get? a with
  | none =>
    have hm : c.batch_mode.get? a = none := congrArg Slot.mode (h.slot_idle hc)
    simpa [Client.text, hm] using h
  | some i =>
    obtain ⟨b, hb, hba, hbk, -⟩ := h.ok.inHand a i hc
    have hslot := h.slot_job hc hb
    simp only [hc, hb] at hok ⊢
    split
    · rename_i hopen
      rw [if_pos hopen] at hok
      obtain ⟨-, hmode⟩ := h.open_mode hc hb hbk hopen
      have hcount : c.batch_count.get? a = some ((b.asked : ℤ) - b.replies.length) :=
        congrArg Slot.count hslot
      have hans : ({ b with ended := some session } : Job).Answered ↔
          c.batch_count.get? a = some 0 := by
        rw [hcount]
        simp only [Job.Answered, Option.isSome_some, true_and, Option.some.injEq]
        omega
      simp only [Client.text, if_pos hmode]
      have hqueue : List.Forall₂ (Belongs (L.jobs.set i { b with ended := some session }))
          c.request_queue L.pending := h.queue_set hb rfl rfl fun hp => absurd hp hbk
      by_cases h0 : c.batch_count.get? a = some 0
      · simp only [if_pos h0, Handler.after_ok]
        have hj := hans.mpr h0
        refine h.settle_batch (j := { b with ended := some session }) hc hb rfl rfl
          (h.texts i b hb) hok hqueue ?_ ?_ ?_
        · rw [if_pos hj]
          exact close_out hba (h.texts i b hb) hbk rfl (congrArg Slot.reply hslot)
        · rw [if_pos hj, Client.batch_close_slot, if_pos rfl]
        · intro b' hb'
          rw [Client.batch_close_slot, if_neg hb']
      · simp only [if_neg h0, Handler.after_ok]
        have hj : ¬ ({ b with ended := some session } : Job).Answered := fun hn => h0 (hans.mp hn)
        refine h.settle_batch (j := { b with ended := some session }) hc hb rfl rfl
          (h.texts i b hb) hok hqueue ?_ ?_ ?_
        · rw [if_neg hj]
          exact (List.append_nil _).symm
        · rw [if_neg hj]
          have hr : c.batch_reply.get? a = b.collected := congrArg Slot.reply hslot
          simp only [Client.slot, Table.get?_set_self, hcount, hr]
          rfl
        · intro b' hb'
          simp [Client.slot, Table.get?_set_ne, hb']
    · rename_i hended
      obtain ⟨s, hm⟩ := h.ended_mode hc hb hended
      simpa [Client.text, hm] using h

/-! ## Requests -/

theorem forall₂_concat {α β : Type*} {R : α → β → Prop} {l : List α} {l' : List β} {x : α} {y : β}
    (h : List.Forall₂ R l l') (hxy : R x y) : List.Forall₂ R (l ++ [x]) (l' ++ [y]) := by
  induction h with
  | nil => exact .cons hxy .nil
  | cons hab _ ih => exact .cons hab ih

/-- A request outside an open batch is queued with the mode its service has. -/
theorem lua_outside (session : Session) {a : Address} (message : List Bytes) (ok : Bool)
    (hr : c.batch_mode.get? a ≠ some .read) (hw : c.batch_mode.get? a ≠ some .write) :
    ∃ socket, c.lua session a message ok = .ok { c with
      socket := socket
      request_queue := c.request_queue ++
        [⟨session, a, compose_message message, c.batch_mode.get? a⟩] } := by
  obtain ⟨socket, hs⟩ := c.socket.write_string (compose_message message) ok
  refine ⟨socket, ?_⟩
  have hnot : ¬ (c.batch_mode.get? a = some .read ∨ c.batch_mode.get? a = some .write) := by
    rintro (h | h)
    · exact hr h
    · exact hw h
  simp only [Client.lua, hs, if_neg hnot]
  rfl

/-- A request in an open batch is counted. -/
theorem lua_inside (session : Session) {a : Address} (message : List Bytes) (ok : Bool) {bc : ℤ}
    (hm : c.batch_mode.get? a = some .read ∨ c.batch_mode.get? a = some .write)
    (hbc : c.batch_count.get? a = some bc) :
    ∃ socket, c.lua session a message ok = .ok { c with
      socket := socket
      batch_count := c.batch_count.set a (bc + 1)
      request_queue := c.request_queue ++
        [⟨session, a, compose_message message, c.batch_mode.get? a⟩] } := by
  obtain ⟨socket, hs⟩ := c.socket.write_string (compose_message message) ok
  refine ⟨socket, ?_⟩
  simp only [Client.lua, hs, if_pos hm, hbc]
  rfl

theorem single (h : Refines c L) (session : Session) (a : Address) (message : List Bytes)
    (ok : Bool) (hr : c.batch_mode.get? a ≠ some .read) (hw : c.batch_mode.get? a ≠ some .write) :
    Refines (after (c.lua session a message ok)) (L.single a session) := by
  obtain ⟨socket, hlua⟩ := lua_outside session message ok hr hw
  rw [hlua, Handler.after_ok]
  exact {
    ok := h.ok.single a session
    out := h.out
    queue := by
      apply forall₂_concat (h.queue_appended _)
      exact ⟨⟨a, .plain, 1, [], some session⟩, by simp, rfl, fun hk => absurd rfl hk,
        fun _ => ⟨⟨hr, hw⟩, rfl⟩⟩
    slots := by
      intro b
      rw [slot_appended (M := L.single a session) h.ok rfl rfl]
      exact h.slots b
    texts := h.texts_appended rfl }

theorem ask (h : Refines c L) (session : Session) (a : Address) (message : List Bytes)
    (ok : Bool) : Refines (after (c.lua session a message ok)) (L.asked a session) := by
  have hok := h.ok.asked a session
  unfold Ledger.asked at hok ⊢
  cases hc : L.current.get? a with
  | none =>
    have hm : c.batch_mode.get? a = none := congrArg Slot.mode (h.slot_idle hc)
    exact h.single session a message ok (by rw [hm]; decide) (by rw [hm]; decide)
  | some i =>
    obtain ⟨b, hb, hba, hbk, -⟩ := h.ok.inHand a i hc
    have hslot := h.slot_job hc hb
    simp only [hc, hb] at hok ⊢
    split
    · rename_i hopen
      rw [if_pos hopen] at hok
      obtain ⟨hm, hmode⟩ := h.open_mode hc hb hbk hopen
      have hcount : c.batch_count.get? a = some ((b.asked : ℤ) - b.replies.length) :=
        congrArg Slot.count hslot
      have hr : c.batch_reply.get? a = b.collected := congrArg Slot.reply hslot
      obtain ⟨socket, hlua⟩ := lua_inside session message ok hmode hcount
      rw [hlua, Handler.after_ok]
      have hnot : ¬ ({ b with asked := b.asked + 1 } : Job).Answered := by
        rintro ⟨hsome, -⟩
        rw [hopen] at hsome
        cases hsome
      have hsettle := h.settle_batch (j := { b with asked := b.asked + 1 })
        (p := L.pending ++ [i])
        (d := { c with
          socket := socket
          batch_count := c.batch_count.set a ((b.asked : ℤ) - b.replies.length + 1)
          request_queue := c.request_queue ++
            [⟨session, a, compose_message message, c.batch_mode.get? a⟩] })
        hc hb rfl rfl (h.texts i b hb)
      rw [Ledger.settle, if_neg hnot, if_neg hnot, if_neg hnot] at hsettle
      apply hsettle hok
      · apply forall₂_concat (h.queue_set (j := { b with asked := b.asked + 1 }) hb rfl rfl
          fun hp => absurd hp hbk)
        exact ⟨_, List.getElem?_set_self (Ledger.lt_of_getElem? hb), hba.symm, fun _ => hm,
          fun hp => absurd hp hbk⟩
      · exact (List.append_nil _).symm
      · simp only [Client.slot, Table.get?_set_self, hm, hr]
        simp [Job.slot, hopen]
        constructor
        · ring
        · rfl
      · intro b' hb'
        simp [Client.slot, Table.get?_set_ne, hb']
    · rename_i hended
      obtain ⟨s, hm⟩ := h.ended_mode hc hb hended
      exact h.single session a message ok (by rw [hm]; simp) (by rw [hm]; simp)

/-! ## Replies -/

/-- The reply to a request of a batch goes into what its job has collected, and the
count goes down. -/
theorem response_collects {q : Request} {queue : List Request} (hq : c.request_queue = q :: queue)
    {j : Job} (hb : q.batch = j.kind.mode) (hk : j.kind ≠ .plain)
    (hr : c.batch_reply.get? q.address = j.collected) (r : Bool × Value) :
    ∃ reply : Table Address BatchReply,
      reply.get? q.address = ({ j with replies := j.replies ++ [r] } : Job).collected ∧
      (∀ b, b ≠ q.address → reply.get? b = c.batch_reply.get? b) ∧
      c.response r.1 r.2 =
        { c with request_queue := queue, batch_reply := reply }.batch_dec q.address := by
  obtain ⟨suc, value⟩ := r
  have hfail := j.failure_append (suc, value)
  have hkinds : j.kind = .read ∨ j.kind = .write := by
    cases hkind : j.kind with
    | plain => exact absurd hkind hk
    | read => exact .inl rfl
    | write => exact .inr rfl
  cases suc with
  | false =>
    -- the error takes the place of what was collected
    refine ⟨c.batch_reply.set q.address (.other value), ?_, ?_, ?_⟩
    · rw [Table.get?_set_self, Job.collected, hfail]
      rfl
    · intro b hb
      exact Table.get?_set_ne _ _ hb
    · rcases hkinds with hkind | hkind <;>
        simp [Client.response, hq, hb, hkind, Kind.mode]
  | true =>
    rw [if_pos rfl] at hfail
    rcases hkinds with hkind | hkind
    · cases hf : j.failure with
      | some e =>
        have hcol : j.collected = some (.other e) := by simp [Job.collected, hf]
        refine ⟨c.batch_reply, ?_, fun _ _ => rfl, ?_⟩
        · rw [hr, hcol, Job.collected, hfail, hf]
        · simp [Client.response, hq, hb, hkind, Kind.mode, hr, hcol]
      | none =>
        have hcol : j.collected = some (.table (j.replies.map Prod.snd)) := by
          simp [Job.collected, hf, hkind]
        refine ⟨c.batch_reply.set q.address (.table (j.replies.map Prod.snd ++ [value])), ?_, ?_,
          ?_⟩
        · rw [Table.get?_set_self, Job.collected, hfail, hf]
          simp [hkind]
        · intro b hb
          exact Table.get?_set_ne _ _ hb
        · simp [Client.response, hq, hb, hkind, Kind.mode, hr, hcol]
    · refine ⟨c.batch_reply, ?_, fun _ _ => rfl, ?_⟩
      · rw [hr, Job.collected, Job.collected, hfail]
        simp [hkind]
      · simp [Client.response, hq, hb, hkind, Kind.mode]

theorem errorTexts_append {j : Job} (hj : j.ErrorTexts) (r : Reply) :
    ({ j with replies := j.replies ++ [r.decoded] } : Job).ErrorTexts := by
  intro x hx hsuc
  rcases List.mem_append.mp hx with hx | hx
  · exact hj x hx hsuc
  · rw [List.mem_singleton.mp hx] at hsuc ⊢
    cases r with
    | error s => exact ⟨s, rfl⟩
    | _ => cases hsuc

theorem reply_plain (h : Refines c L) {q : Request} {queue : List Request}
    (hq : c.request_queue = q :: queue) {i : ℕ} {pending : List ℕ} (hp : L.pending = i :: pending)
    {j : Job} (hj : L.jobs[i]? = some j) (hkind : j.kind = .plain)
    (haddr : q.address = j.address) (hb : q.batch ≠ some .read ∧ q.batch ≠ some .write)
    (hs : j.ended = some q.session) (r : Reply)
    (hok : ({ L with pending := pending }.settle i
      { j with replies := j.replies ++ [r.decoded] }).Ok)
    (hqueue : List.Forall₂ (Belongs (L.jobs.set i { j with replies := j.replies ++ [r.decoded] }))
      queue pending) :
    Refines (after (c.response r.decoded.1 r.decoded.2))
      ({ L with pending := pending }.settle i { j with replies := j.replies ++ [r.decoded] }) := by
  have hres : c.response r.decoded.1 r.decoded.2 = .ok { c with
      request_queue := queue
      out := c.out ++ [Client.plainResponse q r.decoded] } := by
    simp only [Client.response, hq]
    rcases hbatch : q.batch with _ | _ | _ | session
    · rfl
    · exact absurd hbatch hb.1
    · exact absurd hbatch hb.2
    · rfl
  -- the job has one request, and this is its reply
  have hnil : j.replies = [] := by
    have hcount := h.ok.count i j hj
    rw [hp, List.count_cons_self, (h.ok.plain i j hj hkind).2] at hcount
    exact List.length_eq_zero_iff.mp (by omega)
  have hans : ({ j with replies := j.replies ++ [r.decoded] } : Job).Answered := by
    refine ⟨(h.ok.plain i j hj hkind).1, ?_⟩
    show (j.replies ++ [r.decoded]).length = j.asked
    rw [hnil, (h.ok.plain i j hj hkind).2]
    rfl
  rw [hres, Handler.after_ok]
  exact {
    ok := hok
    out := by
      rw [Ledger.settle_log, if_pos hans, List.map_append, ← h.out]
      simp [Client.plainResponse, Job.response, Job.result, hkind, hnil, hs, haddr]
    queue := by
      rw [Ledger.settle_jobs, Ledger.settle_pending]
      exact hqueue
    slots := by
      intro a
      rw [Ledger.slot_settle_pending, Ledger.slot_settle_plain h.ok hj hkind (by exact hkind)]
      exact h.slots a
    texts := by
      rw [Ledger.settle_jobs]
      exact h.texts_set hj (errorTexts_append (h.texts i j hj) r) }

theorem reply_batch (h : Refines c L) {q : Request} {queue : List Request}
    (hq : c.request_queue = q :: queue) {i : ℕ} {pending : List ℕ} (hp : L.pending = i :: pending)
    {j : Job} (hj : L.jobs[i]? = some j) (hkind : j.kind ≠ .plain)
    (haddr : q.address = j.address) (hb : q.batch = j.kind.mode) (r : Reply)
    (hok : ({ L with pending := pending }.settle i
      { j with replies := j.replies ++ [r.decoded] }).Ok)
    (hqueue : List.Forall₂ (Belongs (L.jobs.set i { j with replies := j.replies ++ [r.decoded] }))
      queue pending) :
    Refines (after (c.response r.decoded.1 r.decoded.2))
      ({ L with pending := pending }.settle i { j with replies := j.replies ++ [r.decoded] }) := by
  have hcount := h.ok.count i j hj
  rw [hp, List.count_cons_self] at hcount
  -- a reply is missing, so the batch is still in the hand of its service
  have hna : ¬ j.Answered := by
    rintro ⟨-, hlen⟩
    omega
  have hc := h.ok.unanswered i j hj hkind hna
  have hslot := h.slot_job hc hj
  rw [← haddr] at hc hslot
  obtain ⟨reply, hself, hother, hres⟩ :=
    response_collects hq hb hkind (congrArg Slot.reply hslot) r.decoded
  have hbc : c.batch_count.get? q.address = some ((j.asked : ℤ) - j.replies.length) :=
    congrArg Slot.count hslot
  have hmode : c.batch_mode.get? q.address = j.slot.mode := congrArg Slot.mode hslot
  have htexts := errorTexts_append (h.texts i j hj) r
  rw [hres]
  by_cases hans : ({ j with replies := j.replies ++ [r.decoded] } : Job).Answered
  -- the last reply of an ended batch closes it
  · obtain ⟨hsome, hlen⟩ := hans
    obtain ⟨session, hsession⟩ := Option.isSome_iff_exists.mp hsome
    have hsession' : j.ended = some session := hsession
    have hlast : c.batch_count.get? q.address = some 1 := by
      rw [hbc]
      rw [List.length_append, List.length_singleton] at hlen
      congr 1
      simp only at hlen
      omega
    have hm : c.batch_mode.get? q.address = some (.session session) := by
      rw [hmode, Job.slot, hsession']
    rw [Client.batch_dec_last (c := { c with request_queue := queue, batch_reply := reply })
      hlast hm, Handler.after_ok]
    refine h.settle_batch (j := { j with replies := j.replies ++ [r.decoded] }) hc hj rfl rfl
      htexts hok hqueue ?_ ?_ ?_
    · rw [if_pos ⟨hsome, hlen⟩]
      exact close_out haddr.symm htexts hkind hsession hself
    · rw [if_pos ⟨hsome, hlen⟩, Client.batch_close_slot, if_pos rfl]
    · intro b hb'
      rw [Client.batch_close_slot, if_neg hb']
      simp [Client.slot, Table.get?_set_ne, hb', hother b hb']
  -- any other one is counted
  · have hmore : (j.asked : ℤ) - j.replies.length = 1 →
        c.batch_mode.get? q.address = some .read ∨ c.batch_mode.get? q.address = some .write := by
      intro h1
      have hopen : j.ended = none := by
        by_contra hne
        apply hans
        refine ⟨Option.isSome_iff_ne_none.mpr hne, ?_⟩
        show (j.replies ++ [r.decoded]).length = j.asked
        rw [List.length_append, List.length_singleton]
        omega
      exact (h.open_mode hc hj hkind hopen).2
    rw [Client.batch_dec_more (c := { c with request_queue := queue, batch_reply := reply })
      hbc hmore, Handler.after_ok]
    refine h.settle_batch (j := { j with replies := j.replies ++ [r.decoded] }) hc hj rfl rfl
      htexts hok hqueue ?_ ?_ ?_
    · rw [if_neg hans]
      exact (List.append_nil _).symm
    · rw [if_neg hans]
      simp only [Client.slot, Table.get?_set_self, hself, hmode]
      simp [Job.slot]
      ring
    · intro b hb'
      simp [Client.slot, Table.get?_set_ne, hb', hother b hb']

theorem reply (h : Refines c L) (r : Reply) (hne : c.request_queue ≠ []) :
    Refines (after (c.response r.decoded.1 r.decoded.2)) (L.replied r.decoded) := by
  have hok := h.ok.replied r.decoded
  unfold Ledger.replied at hok ⊢
  obtain ⟨q, queue, hq⟩ := List.exists_cons_of_ne_nil hne
  have hqueue := h.queue
  rw [hq] at hqueue
  cases hp : L.pending with
  | nil =>
    rw [hp] at hqueue
    cases hqueue
  | cons i pending =>
    rw [hp] at hqueue
    obtain ⟨⟨j, hj, haddr, hbatch, hplain⟩, -⟩ := List.forall₂_cons.mp hqueue
    simp only [hp, hj] at hok ⊢
    -- the requests behind are those of the jobs as they are then
    have hqueue' : List.Forall₂
        (Belongs (L.jobs.set i { j with replies := j.replies ++ [r.decoded] })) queue pending := by
      have hset := h.queue_set (j := { j with replies := j.replies ++ [r.decoded] }) hj rfl rfl
        fun _ => rfl
      rw [hq, hp] at hset
      exact (List.forall₂_cons.mp hset).2
    by_cases hkind : j.kind = .plain
    · exact h.reply_plain hq hp hj hkind haddr (hplain hkind).1 (hplain hkind).2 r hok hqueue'
    · exact h.reply_batch hq hp hj hkind haddr (hbatch hkind) r hok hqueue'

end Refines

/-! ## Main result -/

/-- Services ask and use batches in any order; the server replies to what is
outstanding. The ledger is kept beside. -/
def batchSystem : TSys Client BatchEvent where
  init c := c = .connected
  step c e c' := (∀ r, e = .reply r → c.request_queue ≠ []) ∧ c' = c.take e

def batchLedger : TSys (Client × Ledger) BatchEvent :=
  batchSystem.observe (fun _ => .empty) fun _ e _ L => L.note e

theorem refines_reachable {p : Client × Ledger} (hp : batchLedger.Reachable p) :
    Refines p.1 p.2 := by
  apply TSys.Inductive.invariant (P := fun p => Refines p.1 p.2) _ p hp
  constructor
  · rintro ⟨c, L⟩ ⟨hc, hL⟩
    obtain rfl : c = .connected := hc
    obtain rfl : L = .empty := hL
    exact {
      ok := .empty
      out := rfl
      queue := .nil
      slots := fun a => rfl
      texts := fun i j hj => by cases hj }
  · rintro ⟨c, L⟩ e ⟨c', L'⟩ - h ⟨⟨hreply, hc⟩, hL⟩
    obtain rfl : c' = c.take e := hc
    obtain rfl : L' = L.note e := hL
    cases e with
    | text session address mode =>
      cases mode with
      | «end» => exact h.text_end session address
      | read => exact h.text_read session address
      | write => exact h.text_write session address
      | other => exact h.text_other session address
    | ask session address message ok => exact h.ask session address message ok
    | reply r => exact h.reply r (hreply r rfl)

/-- The responses sent are those to the jobs: one to each job that is ended and has all
its replies, none to the others. -/
theorem jobs_answered_once {p : Client × Ledger} (hp : batchLedger.Reachable p) :
    p.1.out = p.2.log.map Prod.snd ∧
      ∀ (i : ℕ) (j : Job), p.2.jobs[i]? = some j →
        p.2.answers i = if j.Answered then [j.response] else [] :=
  ⟨(refines_reachable hp).out, (refines_reachable hp).ok.once⟩

/-- Steps of `batchSystem` by evaluation. -/
def batchExec (c : Client) : BatchEvent → Option Client
  | .reply r => if c.request_queue = [] then none else some (c.take (.reply r))
  | e => some (c.take e)

theorem batchExec_step (c : Client) (e : BatchEvent) (c' : Client) (h : batchExec c e = some c') :
    batchSystem.step c e c' := by
  cases e with
  | reply r =>
    obtain ⟨hne, hc⟩ := Option.ite_none_left_eq_some.mp h
    exact ⟨fun _ _ => hne, (Option.some.inj hc).symm⟩
  | text session address mode =>
    refine ⟨?_, (Option.some.inj h).symm⟩
    rintro r ⟨⟩
  | ask session address message ok =>
    refine ⟨?_, (Option.some.inj h).symm⟩
    rintro r ⟨⟩

/-- A read batch of service 7 that is ended before its reply comes, and a plain request of
service 8 in between. -/
theorem jobs_answered_once_batch : ∃ p : Client × Ledger,
    p.1.out = [⟨7, 9, true, .table [.string [97]]⟩, ⟨8, 5, true, .value (.string [79])⟩] ∧
    p.1.out = p.2.log.map Prod.snd ∧
      ∀ (i : ℕ) (j : Job), p.2.jobs[i]? = some j →
        p.2.answers i = if j.Answered then [j.response] else [] := by
  obtain ⟨p, hp, hout⟩ := TSys.reachable_of_exec (T := batchLedger)
    (TSys.observeExec_step batchExec_step) (s := (.connected, .empty)) ⟨rfl, rfl⟩
    (l := [.text 0 7 .read, .ask 0 7 [[71]] true, .ask 5 8 [[80]] true, .text 9 7 .end,
      .reply (.bulk [97]), .reply (.status [79])])
    (p := fun p => decide (p.1.out =
      [⟨7, 9, true, .table [.string [97]]⟩, ⟨8, 5, true, .value (.string [79])⟩])) (by decide)
  exact ⟨p, of_decide_eq_true hout, jobs_answered_once hp⟩

end DnServer.Redis
