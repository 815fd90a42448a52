import DnServer.Redis.State

/-!
# Requests and batches as jobs

What batch mode is for, without the three tables. A job is a plain request or a
batch of requests of one service. The replies come in the order of the requests,
so each outstanding request is known by the job it belongs to. A job is answered
when it is ended and every request of it has its reply: a plain request with its
reply, a batch with the values collected or with the last error.
-/

namespace DnServer.Redis

open DnServer.Lib

inductive Kind
  | plain
  | read
  | write
  deriving DecidableEq, Repr

structure Job where
  address : Address
  kind : Kind
  /-- How many requests were made for it. -/
  asked : ℕ
  /-- The replies to them so far. -/
  replies : List (Bool × Value)
  /-- The session that waits for the answer. -/
  ended : Option Session
  deriving DecidableEq, Repr

namespace Job

/-- Ended, and no reply is missing. -/
def Answered (j : Job) : Prop := j.ended.isSome ∧ j.replies.length = j.asked

instance (j : Job) : Decidable j.Answered := inferInstanceAs (Decidable (_ ∧ _))

/-- The value of the last error reply. -/
def failure (j : Job) : Option Value :=
  ((j.replies.filter fun r => !r.1).getLast?).map Prod.snd

/-- A plain request is answered with its reply. A batch fails with an error reply; else a
read batch has the values in the order of the requests. -/
def result (j : Job) : Bool × Packed :=
  match j.kind with
  | .plain => ((j.replies.head?.map Prod.fst).getD true,
      .value ((j.replies.head?.map Prod.snd).getD .nil))
  | .read => match j.failure with
    | some e => (false, .value e)
    | none => (true, .table (j.replies.map Prod.snd))
  | .write => match j.failure with
    | some e => (false, .value e)
    | none => (true, .value .nil)

def response (j : Job) : Response := ⟨j.address, j.ended.getD 0, j.result.1, j.result.2⟩

end Job

/-- Every job so far, which batch each service has in hand, the job of each outstanding
request, and the responses sent, each with the job it answers. -/
structure Ledger where
  jobs : List Job
  current : Table Address ℕ
  pending : List ℕ
  log : List (ℕ × Response)

namespace Ledger

def empty : Ledger := ⟨[], .empty, [], []⟩

/-- The responses sent for a job. -/
def answers (L : Ledger) (i : ℕ) : List Response := (L.log.filter (·.1 = i)).map Prod.snd

/-- The job a service has in hand. -/
def inHand (L : Ledger) (a : Address) : Option Job := (L.current.get? a).bind (L.jobs[·]?)

/-- Job `i` becomes `j`; it is answered if that is due. -/
def settle (L : Ledger) (i : ℕ) (j : Job) : Ledger :=
  if j.Answered then
    { L with
      jobs := L.jobs.set i j
      current := if j.kind = .plain then L.current else L.current.erase j.address
      log := L.log ++ [(i, j.response)] }
  else { L with jobs := L.jobs.set i j }

@[simp]
theorem settle_jobs (L : Ledger) (i : ℕ) (j : Job) : (L.settle i j).jobs = L.jobs.set i j := by
  unfold settle
  split <;> rfl

@[simp]
theorem settle_pending (L : Ledger) (i : ℕ) (j : Job) : (L.settle i j).pending = L.pending := by
  unfold settle
  split <;> rfl

theorem settle_log (L : Ledger) (i : ℕ) (j : Job) :
    (L.settle i j).log = L.log ++ if j.Answered then [(i, j.response)] else [] := by
  unfold settle
  split
  · rfl
  · exact (List.append_nil _).symm

/-- A service opens a batch, unless it has one in hand. -/
def opened (L : Ledger) (a : Address) (kind : Kind) : Ledger :=
  match L.current.get? a with
  | some _ => L
  | none =>
    { L with
      jobs := L.jobs ++ [⟨a, kind, 0, [], none⟩]
      current := L.current.set a L.jobs.length }

/-- A service ends the batch it has open. -/
def ended (L : Ledger) (a : Address) (session : Session) : Ledger :=
  match L.current.get? a with
  | none => L
  | some i =>
    match L.jobs[i]? with
    | none => L
    | some j => if j.ended = none then L.settle i { j with ended := some session } else L

/-- A request that is a job of its own. -/
def single (L : Ledger) (a : Address) (session : Session) : Ledger :=
  { L with
    jobs := L.jobs ++ [⟨a, .plain, 1, [], some session⟩]
    pending := L.pending ++ [L.jobs.length] }

/-- A request belongs to the open batch of its service, if there is one. -/
def asked (L : Ledger) (a : Address) (session : Session) : Ledger :=
  match L.current.get? a with
  | none => L.single a session
  | some i =>
    match L.jobs[i]? with
    | none => L.single a session
    | some j =>
      if j.ended = none then
        { L with
          jobs := L.jobs.set i { j with asked := j.asked + 1 }
          pending := L.pending ++ [i] }
      else L.single a session

/-- The reply to the oldest outstanding request. -/
def replied (L : Ledger) (r : Bool × Value) : Ledger :=
  match L.pending with
  | [] => L
  | i :: pending =>
    match L.jobs[i]? with
    | none => L
    | some j => { L with pending := pending }.settle i { j with replies := j.replies ++ [r] }

/-! ## Exactly once -/

/-- Every job has as many requests as it has replies and outstanding requests, an
unanswered batch is the one its service has in hand, and the responses sent are one
for each answered job. -/
structure Ok (L : Ledger) : Prop where
  count : ∀ (i : ℕ) (j : Job), L.jobs[i]? = some j → j.asked = j.replies.length + L.pending.count i
  pending : ∀ i ∈ L.pending, i < L.jobs.length
  inHand : ∀ a i, L.current.get? a = some i →
    ∃ j, L.jobs[i]? = some j ∧ j.address = a ∧ j.kind ≠ .plain ∧ ¬ j.Answered
  unanswered : ∀ (i : ℕ) (j : Job), L.jobs[i]? = some j → j.kind ≠ .plain → ¬ j.Answered →
    L.current.get? j.address = some i
  plain : ∀ (i : ℕ) (j : Job), L.jobs[i]? = some j → j.kind = .plain → j.ended.isSome ∧ j.asked = 1
  fresh : ∀ e ∈ L.log, e.1 < L.jobs.length
  once : ∀ (i : ℕ) (j : Job), L.jobs[i]? = some j → L.answers i = if j.Answered then [j.response] else []

theorem Ok.empty : Ok empty where
  count i j h := by cases h
  pending i h := by cases h
  inHand a i h := by cases h
  unanswered i j h := by cases h
  plain i j h := by cases h
  fresh e h := by cases h
  once i j h := by cases h

theorem lt_of_getElem? {α : Type*} {l : List α} {i : ℕ} {x : α} (h : l[i]? = some x) :
    i < l.length := (List.getElem?_eq_some_iff.mp h).1

/-- A job without answer is not in the log yet. -/
theorem answers_append (L : Ledger) (i k : ℕ) (r : Response) :
    ((L.log ++ [(i, r)]).filter (·.1 = k)).map Prod.snd =
      L.answers k ++ if i = k then [r] else [] := by
  rw [List.filter_append, List.map_append]
  congr 1
  by_cases h : i = k <;> simp [h]

/-- The one way a job moves on: `j` takes the place of `b`, which had no answer. -/
theorem Ok.settle {L : Ledger} (h : L.Ok) {i : ℕ} {b j : Job} (hb : L.jobs[i]? = some b)
    (hna : ¬ b.Answered) (haddr : j.address = b.address) (hkind : j.kind = b.kind)
    (hended : b.ended.isSome → j.ended.isSome) (hsingle : b.kind = .plain → j.asked = b.asked)
    (pending : List ℕ)
    (hcount : j.asked = j.replies.length + pending.count i)
    (hother : ∀ k, k ≠ i → pending.count k = L.pending.count k)
    (hlt : ∀ k ∈ pending, k < L.jobs.length) :
    ({ L with pending := pending }.settle i j).Ok := by
  have hi := lt_of_getElem? hb
  have hself : (L.jobs.set i j)[i]? = some j := by rw [List.getElem?_set_self hi]
  have hne : ∀ k, k ≠ i → (L.jobs.set i j)[k]? = L.jobs[k]? := fun k hk =>
    List.getElem?_set_ne hk.symm
  have hcount' : ∀ (k : ℕ) (x : Job), (L.jobs.set i j)[k]? = some x →
      x.asked = x.replies.length + pending.count k := by
    intro k x hx
    rcases eq_or_ne k i with rfl | hk
    · rw [hself] at hx
      obtain rfl := Option.some.inj hx
      exact hcount
    · rw [hne k hk] at hx
      rw [hother k hk]
      exact h.count k x hx
  have hplain' : ∀ (k : ℕ) (x : Job), (L.jobs.set i j)[k]? = some x → x.kind = .plain →
      x.ended.isSome ∧ x.asked = 1 := by
    intro k x hx hxk
    rcases eq_or_ne k i with rfl | hk
    · rw [hself] at hx
      obtain rfl := Option.some.inj hx
      have hbk : b.kind = .plain := hkind ▸ hxk
      obtain ⟨hsome, hone⟩ := h.plain k b hb hbk
      exact ⟨hended hsome, (hsingle hbk).trans hone⟩
    · rw [hne k hk] at hx
      exact h.plain k x hx hxk
  have hlen : (L.jobs.set i j).length = L.jobs.length := List.length_set
  have hnone : L.answers i = [] := by rw [h.once i b hb, if_neg hna]
  unfold Ledger.settle
  split
  · rename_i hans
    have hgone : ∀ a k, k ≠ i → L.current.get? a = some k →
        (if j.kind = .plain then L.current else L.current.erase j.address).get? a = some k := by
      intro a k hk ha
      split
      · exact ha
      · rename_i hjk
        rw [Table.get?_erase_ne]
        · exact ha
        · rintro rfl
          -- the batch in hand is the one that was answered
          rw [haddr, h.unanswered i b hb (hkind ▸ hjk) hna] at ha
          exact hk (Option.some.inj ha).symm
    exact {
      count := hcount'
      pending := fun k hk => by
        rw [hlen]
        exact hlt k hk
      inHand := by
        intro a k hk
        have hcur : L.current.get? a = some k ∧ k ≠ i := by
          simp only at hk
          split at hk
          · rename_i hjk
            refine ⟨hk, ?_⟩
            rintro rfl
            obtain ⟨x, hx, -, hxk, -⟩ := h.inHand a k hk
            rw [hb] at hx
            obtain rfl := Option.some.inj hx
            exact hxk (hkind ▸ hjk)
          · rw [Table.get?_erase] at hk
            obtain ⟨ha, hk⟩ := Option.ite_none_left_eq_some.mp hk
            refine ⟨hk, ?_⟩
            rintro rfl
            obtain ⟨x, hx, hxa, -, -⟩ := h.inHand a k hk
            rw [hb] at hx
            obtain rfl := Option.some.inj hx
            exact ha (hxa ▸ haddr.symm)
        obtain ⟨x, hx, hrest⟩ := h.inHand a k hcur.1
        exact ⟨x, (hne k hcur.2).trans hx, hrest⟩
      unanswered := by
        intro k x hx hxk hxn
        rcases eq_or_ne k i with rfl | hki
        · rw [hself] at hx
          obtain rfl := Option.some.inj hx
          exact absurd hans hxn
        · rw [hne k hki] at hx
          exact hgone _ _ hki (h.unanswered k x hx hxk hxn)
      plain := hplain'
      fresh := by
        intro e he
        rw [hlen]
        rcases List.mem_append.mp he with he | he
        · exact h.fresh e he
        · rw [List.mem_singleton.mp he]
          exact hi
      once := by
        intro k x hx
        show ((L.log ++ [(i, j.response)]).filter (·.1 = k)).map Prod.snd = _
        rw [answers_append]
        rcases eq_or_ne k i with rfl | hki
        · rw [hself] at hx
          obtain rfl := Option.some.inj hx
          rw [if_pos rfl, if_pos hans]
          show L.answers k ++ _ = _
          rw [hnone, List.nil_append]
        · rw [hne k hki] at hx
          rw [if_neg hki.symm, List.append_nil]
          exact h.once k x hx }
  · rename_i hnot
    exact {
      count := hcount'
      pending := fun k hk => by rw [hlen]; exact hlt k hk
      inHand := by
        intro a k hk
        obtain ⟨x, hx, hxa, hxk, hxn⟩ := h.inHand a k hk
        rcases eq_or_ne k i with rfl | hki
        · rw [hb] at hx
          obtain rfl := Option.some.inj hx
          exact ⟨j, hself, haddr.trans hxa, hkind ▸ hxk, hnot⟩
        · exact ⟨x, (hne k hki).trans hx, hxa, hxk, hxn⟩
      unanswered := by
        intro k x hx hxk hxn
        rcases eq_or_ne k i with rfl | hki
        · rw [hself] at hx
          obtain rfl := Option.some.inj hx
          rw [haddr]
          exact h.unanswered k b hb (hkind ▸ hxk) hna
        · rw [hne k hki] at hx
          exact h.unanswered k x hx hxk hxn
      plain := hplain'
      fresh := fun e he => by rw [hlen]; exact h.fresh e he
      once := by
        intro k x hx
        rcases eq_or_ne k i with rfl | hki
        · rw [hself] at hx
          obtain rfl := Option.some.inj hx
          rw [if_neg hnot]
          exact hnone
        · rw [hne k hki] at hx
          exact h.once k x hx }

/-- A new job, with `n` requests and no reply. -/
theorem Ok.appended {L : Ledger} (h : L.Ok) {j : Job} (hj : j.replies = []) {n : ℕ}
    (hasked : j.asked = n) (current : Table Address ℕ)
    (hcur : j.kind = .plain ∧ j.ended.isSome ∧ n = 1 ∧ current = L.current ∨
      j.kind ≠ .plain ∧ j.ended = none ∧ L.current.get? j.address = none ∧
        current = L.current.set j.address L.jobs.length) :
    Ok { L with
      jobs := L.jobs ++ [j]
      current := current
      pending := L.pending ++ List.replicate n L.jobs.length } := by
  have hself : (L.jobs ++ [j])[L.jobs.length]? = some j := by simp
  have hold : ∀ {k : ℕ} {x : Job}, L.jobs[k]? = some x → (L.jobs ++ [j])[k]? = some x := by
    intro k x hx
    rw [List.getElem?_append_left (lt_of_getElem? hx), hx]
  -- a job of the longer list is an old one or the new one
  have hcases : ∀ {k : ℕ} {x : Job}, (L.jobs ++ [j])[k]? = some x →
      L.jobs[k]? = some x ∨ k = L.jobs.length ∧ x = j := by
    intro k x hx
    rcases lt_or_eq_of_le (Nat.le_of_lt_succ (by simpa using lt_of_getElem? hx)) with hk | rfl
    · rw [List.getElem?_append_left hk] at hx
      exact .inl hx
    · rw [hself] at hx
      exact .inr ⟨rfl, (Option.some.inj hx).symm⟩
  have hlen : (L.jobs ++ [j]).length = L.jobs.length + 1 := by simp
  have hnew : L.pending.count L.jobs.length = 0 :=
    List.count_eq_zero.mpr fun hmem => absurd (h.pending _ hmem) (lt_irrefl _)
  have hna : ¬ j.Answered := by
    rintro ⟨hsome, hreplies⟩
    rw [hj, List.length_nil, hasked] at hreplies
    rcases hcur with ⟨-, -, hn, -⟩ | ⟨-, hended, -⟩
    · omega
    · rw [hended] at hsome
      cases hsome
  have hlog : L.answers L.jobs.length = [] := by
    rw [answers, List.map_eq_nil_iff, List.filter_eq_nil_iff]
    intro e he
    have := h.fresh e he
    simp
    omega
  exact {
    count := by
      intro k x hx
      show _ = _ + (L.pending ++ List.replicate n L.jobs.length).count k
      rw [List.count_append]
      rcases hcases hx with hx | ⟨rfl, rfl⟩
      · rw [List.count_replicate, if_neg (by simpa using (lt_of_getElem? hx).ne')]
        exact h.count k x hx
      · rw [hnew, List.count_replicate_self, hj, hasked]
        simp
    pending := by
      intro k hk
      rw [hlen]
      rcases List.mem_append.mp hk with hk | hk
      · exact (h.pending k hk).trans (Nat.lt_succ_self _)
      · rw [List.eq_of_mem_replicate hk]
        exact Nat.lt_succ_self _
    inHand := by
      intro a k hk
      rcases hcur with ⟨-, -, -, rfl⟩ | ⟨hkind, -, -, rfl⟩
      · obtain ⟨x, hx, hrest⟩ := h.inHand a k hk
        exact ⟨x, hold hx, hrest⟩
      · simp only [Table.get?_set] at hk
        split at hk
        · rename_i ha
          obtain rfl := Option.some.inj hk
          exact ⟨j, hself, ha.symm, hkind, hna⟩
        · obtain ⟨x, hx, hrest⟩ := h.inHand a k hk
          exact ⟨x, hold hx, hrest⟩
    unanswered := by
      intro k x hx hxk hxn
      rcases hcases hx with hx | ⟨rfl, rfl⟩
      · have hin := h.unanswered k x hx hxk hxn
        rcases hcur with ⟨-, -, -, rfl⟩ | ⟨-, -, hnone, rfl⟩
        · exact hin
        · show (L.current.set j.address L.jobs.length).get? x.address = some k
          rw [Table.get?_set_ne]
          · exact hin
          · intro heq
            rw [heq, hnone] at hin
            cases hin
      · rcases hcur with ⟨hplain, -⟩ | ⟨-, -, -, rfl⟩
        · exact absurd hplain hxk
        · exact Table.get?_set_self _ _ _
    plain := by
      intro k x hx hxk
      rcases hcases hx with hx | ⟨rfl, rfl⟩
      · exact h.plain k x hx hxk
      · rcases hcur with ⟨-, hended, hn, -⟩ | ⟨hkind, -⟩
        · exact ⟨hended, hasked.trans hn⟩
        · exact absurd hxk hkind
    fresh := by
      intro e he
      rw [hlen]
      exact (h.fresh e he).trans (Nat.lt_succ_self _)
    once := by
      intro k x hx
      rcases hcases hx with hx | ⟨rfl, rfl⟩
      · exact h.once k x hx
      · rw [if_neg hna]
        exact hlog }

theorem Ok.opened {L : Ledger} (h : L.Ok) (a : Address) {kind : Kind} (hkind : kind ≠ .plain) :
    (L.opened a kind).Ok := by
  unfold Ledger.opened
  cases hc : L.current.get? a with
  | some i => exact h
  | none =>
    have := h.appended (j := ⟨a, kind, 0, [], none⟩) (n := 0) rfl rfl
      (L.current.set a L.jobs.length) (.inr ⟨hkind, rfl, hc, rfl⟩)
    simpa using this

theorem Ok.single {L : Ledger} (h : L.Ok) (a : Address) (session : Session) :
    (L.single a session).Ok :=
  h.appended (j := ⟨a, .plain, 1, [], some session⟩) (n := 1) rfl rfl
    L.current (.inl ⟨rfl, rfl, rfl, rfl⟩)

theorem Ok.ended {L : Ledger} (h : L.Ok) (a : Address) (session : Session) :
    (L.ended a session).Ok := by
  unfold Ledger.ended
  cases hc : L.current.get? a with
  | none => exact h
  | some i =>
    obtain ⟨j, hj, -, -, hna⟩ := h.inHand a i hc
    simp only [hj]
    split
    · exact h.settle (j := { j with ended := some session }) hj hna rfl rfl (fun _ => rfl)
        (fun _ => rfl) L.pending (h.count i j hj) (fun _ _ => rfl) h.pending
    · exact h

theorem Ok.asked {L : Ledger} (h : L.Ok) (a : Address) (session : Session) :
    (L.asked a session).Ok := by
  unfold Ledger.asked
  cases hc : L.current.get? a with
  | none => exact h.single a session
  | some i =>
    obtain ⟨j, hj, -, hkind, hna⟩ := h.inHand a i hc
    have hi := lt_of_getElem? hj
    simp only [hj]
    split
    · rename_i hopen
      have hnot : ¬ ({ j with asked := j.asked + 1 } : Job).Answered := by
        rintro ⟨hsome, -⟩
        rw [hopen] at hsome
        cases hsome
      have := h.settle (j := { j with asked := j.asked + 1 }) hj hna rfl rfl id
        (fun hp => absurd hp hkind) (L.pending ++ [i])
        (by
          have := h.count i j hj
          simp only [List.count_append, List.count_singleton_self]
          omega)
        (fun k hk => by simp [List.count_append, hk.symm])
        (by
          intro k hk
          rcases List.mem_append.mp hk with hk | hk
          · exact h.pending k hk
          · rw [List.mem_singleton.mp hk]
            exact hi)
      rwa [Ledger.settle, if_neg hnot] at this
    · exact h.single a session

theorem Ok.replied {L : Ledger} (h : L.Ok) (r : Bool × Value) : (L.replied r).Ok := by
  unfold Ledger.replied
  cases hp : L.pending with
  | nil => exact h
  | cons i pending =>
    obtain ⟨j, hj⟩ : ∃ j, L.jobs[i]? = some j :=
      ⟨_, List.getElem?_eq_getElem (h.pending i (hp ▸ List.mem_cons_self))⟩
    have hcount := h.count i j hj
    rw [hp, List.count_cons_self] at hcount
    simp only [hj]
    have hna : ¬ j.Answered := by
      rintro ⟨-, hlen⟩
      omega
    refine h.settle (j := { j with replies := j.replies ++ [r] }) hj hna rfl rfl id
      (fun _ => rfl) pending ?_ ?_ ?_
    · show j.asked = (j.replies ++ [r]).length + _
      rw [List.length_append, List.length_singleton]
      omega
    · intro k hk
      rw [hp, List.count_cons_of_ne hk.symm]
    · intro k hk
      exact h.pending k (hp ▸ List.mem_cons_of_mem _ hk)

end Ledger

end DnServer.Redis
