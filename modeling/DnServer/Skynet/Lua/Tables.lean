import DnServer.Skynet.Lua.State

/-!
# What the tables of a Lua service say

The tables of a Lua service agree with where its coroutines stand: under a
session stands the coroutine that waits for it and no other, a coroutine has a
session to sleep for just while it sleeps, and the request tables hold the
request whose handler the coroutine runs. Every action and every message keeps
this for each coroutine, as long as no session is taken twice.
-/

namespace DnServer.Skynet.Lua

namespace Thread

/-- The session that a coroutine waits for. -/
def awaits : Thread → Option ℕ
  | .ready (.timeout session) => some session
  | .waiting _ (.CALL session) => some session
  | .waiting _ (.SLEEP session) => some session
  | _ => none

/-- The session that a coroutine sleeps for. -/
def sleeps : Thread → Option ℕ
  | .waiting _ (.SLEEP session) => some session
  | _ => none

/-- The request that the tables hold for a coroutine, where it matters. -/
def handles : Thread → Option (Option (ℤ × ℕ))
  | .absent => some none
  | .ready .dispatch => none
  | .ready _ => some none
  | .running job => some job.request
  | .waiting job _ => some job.request
  | .exited => some none
  | .dead => none

/-- The call that runs in a coroutine that was resumed. -/
def started (args : Args) : Thread → Option Job
  | .ready f => some ⟨f, args⟩
  | .waiting job _ => some job
  | _ => none

/-- The call that a coroutine is in, whether it runs or has yielded. -/
def job : Thread → Option Job
  | .running job => some job
  | .waiting job _ => some job
  | _ => none

def isRunning : Thread → Bool
  | .running _ => true
  | _ => false

end Thread

namespace State

/-! ## What holds of every coroutine -/

/-- The tables say of the coroutine `co` what it is at. -/
structure Agrees (st : State) (co : ℕ) : Prop where
  entry : ∀ s, st.session_id_coroutine s = some (.coroutine co) ↔ (st.threads co).awaits = some s
  issuer : ∀ s, (st.threads co).awaits = some s → st.issuer s = some co
  sleeping : st.sleep_session co = (st.threads co).sleeps
  handles : ∀ r, (st.threads co).handles = some r →
    st.session_coroutine_id co = r.map Prod.fst ∧ st.session_coroutine_address co = r.map Prod.snd
  running : (st.threads co).isRunning = true ↔ st.control = .running co
  created : st.created ≤ co → st.threads co = .absent
  forked : co ∈ st.fork_queue → st.threads co = .ready .fork
  pooled : st.coroutine_pool = some co → st.threads co = .exited

/-- What was recorded is right, and no session was taken yet that is still to come. -/
structure Recorded (st : State) : Prop where
  issued : ∀ s, st.session_id_coroutine s ≠ none → s ≤ st.issued
  forks : st.fork_queue.Nodup
  resumed : ∀ n ∈ st.resumed, st.issuer n.session = some n.co ∧ n.thread.awaits = some n.session ∧
    n.session ≤ st.issued ∧ ∀ co, st.session_id_coroutine n.session ≠ some (.coroutine co)
  once : (st.resumed.map Resumption.session).Nodup
  rets : ∀ n ∈ st.rets, n.session = n.job.request.map Prod.fst ∧
    n.address = n.job.request.map Prod.snd

/-- The invariant. -/
structure Inv (st : State) : Prop where
  agrees : ∀ co, st.Agrees co
  recorded : st.Recorded

/-- Nothing that `Agrees` reads of `co` differs between two states. -/
structure Same (st st' : State) (co : ℕ) : Prop where
  threads : st'.threads co = st.threads co
  entry : ∀ s, st'.session_id_coroutine s = some (.coroutine co) ↔
    st.session_id_coroutine s = some (.coroutine co)
  issuer : ∀ s, (st.threads co).awaits = some s → st'.issuer s = st.issuer s
  sleeping : st'.sleep_session co = st.sleep_session co
  id : st'.session_coroutine_id co = st.session_coroutine_id co
  address : st'.session_coroutine_address co = st.session_coroutine_address co
  running : st'.control = .running co ↔ st.control = .running co
  created : st.created ≤ st'.created
  forked : co ∈ st'.fork_queue → co ∈ st.fork_queue
  pooled : st'.coroutine_pool = some co → st.coroutine_pool = some co

variable {st st' : State} {co s : ℕ} {job : Job} {args : Args}

theorem Agrees.frame (h : st.Agrees co) (hs : st.Same st' co) : st'.Agrees co where
  entry := by
    intro s
    rw [hs.entry, hs.threads]
    exact h.entry s
  issuer := by
    intro s
    rw [hs.threads]
    intro hw
    rw [hs.issuer s hw]
    exact h.issuer s hw
  sleeping := by
    rw [hs.sleeping, hs.threads]
    exact h.sleeping
  handles := by
    rw [hs.threads, hs.id, hs.address]
    exact h.handles
  running := by
    rw [hs.threads, hs.running]
    exact h.running
  created := by
    intro hc
    rw [hs.threads]
    exact h.created (hs.created.trans hc)
  forked := by
    intro hf
    rw [hs.threads]
    exact h.forked (hs.forked hf)
  pooled := by
    intro hp
    rw [hs.threads]
    exact h.pooled (hs.pooled hp)

theorem Recorded.congr (h : st.Recorded) (hissued : st.issued ≤ st'.issued)
    (hentry : st'.session_id_coroutine = st.session_id_coroutine)
    (hforks : st'.fork_queue = st.fork_queue) (hissuer : st'.issuer = st.issuer)
    (hresumed : st'.resumed = st.resumed) (hrets : st'.rets = st.rets) : st'.Recorded where
  issued := by
    rw [hentry]
    intro s hs
    exact (h.issued s hs).trans hissued
  forks := by
    rw [hforks]
    exact h.forks
  resumed := by
    rw [hresumed, hentry, hissuer]
    intro n hn
    obtain ⟨hby, hat, hle, hno⟩ := h.resumed n hn
    exact ⟨hby, hat, hle.trans hissued, hno⟩
  once := by
    rw [hresumed]
    exact h.once
  rets := by
    rw [hrets]
    exact h.rets

/-! ## Resuming -/

theorem resume_eq (hsleep : st.sleep_session co = (st.threads co).sleeps)
    (hjob : (st.threads co).started args = some job) :
    st.resume co args = { st with
      threads := Function.update st.threads co (.running job)
      sleep_session := Function.update st.sleep_session co none
      control := .running co } := by
  have hkeep : st.sleep_session co = none →
      Function.update st.sleep_session co none = st.sleep_session := by
    intro hnone
    rw [← hnone, Function.update_eq_self]
  unfold resume
  cases hth : st.threads co with
  | ready f =>
    rw [hth] at hsleep hjob
    cases hjob
    rw [hkeep hsleep]
  | waiting job' wait =>
    rw [hth] at hsleep hjob
    cases hjob
    cases wait with
    | SLEEP session => rfl
    | CALL session => rw [hkeep hsleep]
    | RETURN => rw [hkeep hsleep]
  | absent | running | exited | dead =>
    rw [hth] at hjob
    cases hjob

theorem resume_control (hjob : (st.threads co).started args = some job) :
    (st.resume co args).control = .running co := by
  unfold resume
  cases hth : st.threads co with
  | ready f => rfl
  | waiting job' wait => cases wait <;> rfl
  | absent | running | exited | dead =>
    rw [hth] at hjob
    cases hjob

/-- A coroutine that nothing waits for any more runs. -/
theorem agrees_resume (h : ∀ c, c ≠ co → st.Agrees c)
    (hentry : ∀ s, st.session_id_coroutine s ≠ some (.coroutine co))
    (hsleep : st.sleep_session co = (st.threads co).sleeps)
    (hjob : (st.threads co).started args = some job)
    (hid : st.session_coroutine_id co = job.request.map Prod.fst)
    (haddress : st.session_coroutine_address co = job.request.map Prod.snd)
    (hcontrol : ∀ c, c ≠ co → st.control ≠ .running c) (hcreated : co < st.created)
    (hforked : co ∉ st.fork_queue) (hpooled : st.coroutine_pool ≠ some co) (c : ℕ) :
    (st.resume co args).Agrees c := by
  rw [resume_eq hsleep hjob]
  rcases eq_or_ne c co with rfl | hne
  · refine ⟨?_, ?_, ?_, ?_, ?_, ?_, ?_, ?_⟩ <;> simp only [Function.update_self]
    · intro s
      exact iff_of_false (hentry s) (by simp [Thread.awaits])
    · intro s hs
      cases hs
    · rfl
    · intro r hr
      cases hr
      exact ⟨hid, haddress⟩
    · simp [Thread.isRunning]
    · intro hc
      exact absurd hc (not_le.mpr hcreated)
    · intro hf
      exact absurd hf hforked
    · intro hp
      exact absurd hp hpooled
  · refine (h c hne).frame ⟨?_, ?_, ?_, ?_, ?_, ?_, ?_, ?_, ?_, ?_⟩
    · exact Function.update_of_ne hne _ _
    · exact fun s => Iff.rfl
    · exact fun s _ => rfl
    · exact Function.update_of_ne hne _ _
    · rfl
    · rfl
    · exact iff_of_false (fun heq => hne (Control.running.inj heq).symm) (hcontrol c hne)
    · exact le_rfl
    · exact id
    · exact id

theorem recorded_resume (h : st.Recorded) (hsleep : st.sleep_session co = (st.threads co).sleeps)
    (hjob : (st.threads co).started args = some job) : (st.resume co args).Recorded := by
  rw [resume_eq hsleep hjob]
  exact h.congr le_rfl rfl rfl rfl rfl rfl

/-- What a thread can be that waits for a session. -/
theorem awaits_cases {th : Thread} (h : th.awaits = some s) :
    th = .ready (.timeout s) ∨ (∃ job, th = .waiting job (.CALL s)) ∨
      ∃ job, th = .waiting job (.SLEEP s) := by
  unfold Thread.awaits at h
  split at h <;> cases h
  · exact .inl rfl
  · exact .inr (.inl ⟨_, rfl⟩)
  · exact .inr (.inr ⟨_, rfl⟩)

/-- A coroutine that waits for a session is in no queue and has not ended. -/
theorem Agrees.away (h : st.Agrees co) (hw : (st.threads co).awaits = some s) :
    co < st.created ∧ co ∉ st.fork_queue ∧ st.coroutine_pool ≠ some co := by
  refine ⟨?_, ?_, ?_⟩
  · by_contra hge
    rw [h.created (not_lt.mp hge)] at hw
    cases hw
  · intro hf
    rw [h.forked hf] at hw
    cases hw
  · intro hp
    rw [h.pooled hp] at hw
    cases hw

/-- The call of a coroutine that waits for a session, and the request it is in. -/
theorem Agrees.started (h : st.Agrees co) (hw : (st.threads co).awaits = some s)
    (hargs : ∀ f, Job.request ⟨f, args⟩ = none) :
    ∃ job, (st.threads co).started args = some job ∧
      st.session_coroutine_id co = job.request.map Prod.fst ∧
      st.session_coroutine_address co = job.request.map Prod.snd := by
  have hnames := h.handles
  obtain hth | ⟨job, hth⟩ | ⟨job, hth⟩ := awaits_cases hw
  · rw [hth] at hnames ⊢
    refine ⟨_, rfl, ?_⟩
    rw [hargs]
    exact hnames none rfl
  · rw [hth] at hnames ⊢
    exact ⟨job, rfl, hnames _ rfl⟩
  · rw [hth] at hnames ⊢
    exact ⟨job, rfl, hnames _ rfl⟩

/-- The wait of `co` for a session ends, and `co` runs. -/
theorem Inv.released (h : st.Inv) (hcontrol : ∀ c, st.control ≠ .running c)
    (hs : st.session_id_coroutine s = some (.coroutine co)) {e : Option Entry}
    (he : ∀ c, e ≠ some (.coroutine c)) (hargs : ∀ f, Job.request ⟨f, args⟩ = none) :
    (({ st with
      session_id_coroutine := Function.update st.session_id_coroutine s e }.record co s).resume
        co args).Inv := by
  have hco := h.agrees co
  have hw := (hco.entry s).mp hs
  obtain ⟨job, hjob, hid, haddress⟩ := hco.started hw hargs
  obtain ⟨hcreated, hforked, hpooled⟩ := hco.away hw
  constructor
  · refine agrees_resume ?_ ?_ hco.sleeping hjob hid haddress (fun c _ => hcontrol c) hcreated
      hforked hpooled
    · intro c hne
      refine (h.agrees c).frame ⟨rfl, ?_, fun _ _ => rfl, rfl, rfl, rfl, Iff.rfl, le_rfl, id, id⟩
      intro s'
      show Function.update st.session_id_coroutine s e s' = _ ↔ _
      rcases eq_or_ne s' s with rfl | hs'
      · rw [Function.update_self, hs]
        exact iff_of_false (he c) (by simp [hne.symm])
      · rw [Function.update_of_ne hs']
    · intro s'
      show Function.update st.session_id_coroutine s e s' ≠ _
      rcases eq_or_ne s' s with rfl | hs'
      · rw [Function.update_self]
        exact he co
      · rw [Function.update_of_ne hs']
        intro heq
        exact hs' (Option.some.inj (((hco.entry s').mp heq).symm.trans hw))
  · have hr := h.recorded
    have hle : s ≤ st.issued := hr.issued s (by rw [hs]; exact Option.some_ne_none _)
    refine recorded_resume ⟨?_, hr.forks, ?_, ?_, hr.rets⟩ hco.sleeping hjob
    · intro s' hs'
      change Function.update st.session_id_coroutine s e s' ≠ none at hs'
      rcases eq_or_ne s' s with rfl | hne
      · exact hle
      · rw [Function.update_of_ne hne] at hs'
        exact hr.issued s' hs'
    · have hold : ∀ n : Resumption, (∀ c, st.session_id_coroutine n.session ≠ some (.coroutine c)) →
          ∀ c, Function.update st.session_id_coroutine s e n.session ≠ some (.coroutine c) := by
        intro n hn c
        rcases eq_or_ne n.session s with heq | hne
        · rw [heq, Function.update_self]
          exact he c
        · rw [Function.update_of_ne hne]
          exact hn c
      intro n hn
      obtain rfl | hn := List.mem_cons.mp hn
      · refine ⟨hco.issuer s hw, hw, hle, ?_⟩
        intro c
        show Function.update st.session_id_coroutine s e s ≠ _
        rw [Function.update_self]
        exact he c
      · obtain ⟨hby, hat, hbound, hno⟩ := hr.resumed n hn
        exact ⟨hby, hat, hbound, hold n hno⟩
    · show (s :: st.resumed.map Resumption.session).Nodup
      refine List.nodup_cons.mpr ⟨?_, hr.once⟩
      intro hmem
      obtain ⟨n, hn, heq⟩ := List.mem_map.mp hmem
      exact (hr.resumed n hn).2.2.2 co (heq ▸ hs)

/-! ## Waiting -/

/-- Below the bound the next session is one above the last. -/
theorem newsession_eq (hlt : st.issued + 1 < 2147483648) :
    st.newsession = ({ st with issued := st.issued + 1 }, st.issued + 1) := by
  unfold newsession
  rw [Nat.mod_eq_of_lt hlt]

/-- Nobody waits for the next session, and nothing stands under it. -/
theorem Inv.fresh (h : st.Inv) : st.session_id_coroutine (st.issued + 1) = none ∧
    ∀ c, (st.threads c).awaits ≠ some (st.issued + 1) := by
  have hnone : st.session_id_coroutine (st.issued + 1) = none := by
    by_contra hne
    have := h.recorded.issued _ hne
    omega
  refine ⟨hnone, ?_⟩
  intro c hw
  have := ((h.agrees c).entry _).mpr hw
  rw [hnone] at this
  cases this

/-- The next session is taken for the coroutine `co`, and `co` stands under it. -/
theorem Inv.taken (h : st.Inv) (hissued : st'.issued = st.issued + 1)
    (hentry : st'.session_id_coroutine =
      Function.update st.session_id_coroutine (st.issued + 1) (some (.coroutine co)))
    (hissuer : st'.issuer = Function.update st.issuer (st.issued + 1) (some co))
    (hforks : st'.fork_queue = st.fork_queue) (hresumed : st'.resumed = st.resumed)
    (hrets : st'.rets = st.rets) : st'.Recorded where
  issued := by
    intro s hs
    rw [hentry] at hs
    rw [hissued]
    rcases eq_or_ne s (st.issued + 1) with rfl | hne
    · exact le_rfl
    · rw [Function.update_of_ne hne] at hs
      exact (h.recorded.issued s hs).trans (Nat.le_succ _)
  forks := by
    rw [hforks]
    exact h.recorded.forks
  resumed := by
    rw [hresumed, hentry, hissuer, hissued]
    intro n hn
    obtain ⟨hby, hat, hle, hno⟩ := h.recorded.resumed n hn
    have hne : n.session ≠ st.issued + 1 := by omega
    rw [Function.update_of_ne hne, Function.update_of_ne hne]
    exact ⟨hby, hat, hle.trans (Nat.le_succ _), hno⟩
  once := by
    rw [hresumed]
    exact h.recorded.once
  rets := by
    rw [hrets]
    exact h.recorded.rets

/-- For the other coroutines nothing changes with that. -/
theorem Inv.taken_others (h : st.Inv) {c : ℕ} (hne : c ≠ co) :
    (∀ s, Function.update st.session_id_coroutine (st.issued + 1) (some (.coroutine co)) s =
      some (.coroutine c) ↔ st.session_id_coroutine s = some (.coroutine c)) ∧
    ∀ s, (st.threads c).awaits = some s →
      Function.update st.issuer (st.issued + 1) (some co) s = st.issuer s := by
  obtain ⟨hnone, hnobody⟩ := h.fresh
  constructor
  · intro s
    rcases eq_or_ne s (st.issued + 1) with rfl | hs
    · rw [Function.update_self, hnone]
      exact iff_of_false (by simp [hne.symm]) (by simp)
    · rw [Function.update_of_ne hs]
  · intro s hw
    refine Function.update_of_ne ?_ _ _
    rintro rfl
    exact hnobody c hw

/-- The coroutine `co` stands under the next session and nowhere else. -/
theorem Inv.taken_entry (h : st.Inv) (hw : (st.threads co).awaits = none) (s : ℕ) :
    Function.update st.session_id_coroutine (st.issued + 1) (some (.coroutine co)) s =
      some (.coroutine co) ↔ some (st.issued + 1) = some s := by
  rcases eq_or_ne s (st.issued + 1) with rfl | hs
  · rw [Function.update_self]
    exact iff_of_true rfl rfl
  · rw [Function.update_of_ne hs, (h.agrees co).entry, hw]
    exact iff_of_false (by simp) (by simp [hs.symm])

/-- A coroutine that runs is what the main state is at. -/
theorem Inv.current (h : st.Inv) (hc : st.control = .running co) :
    ∃ job, st.threads co = .running job := by
  have hrun := ((h.agrees co).running).mpr hc
  cases hth : st.threads co with
  | running job => exact ⟨job, rfl⟩
  | absent | ready | waiting | exited | dead =>
    rw [hth] at hrun
    cases hrun

/-- A running coroutine yields, to wait for the next session. -/
theorem Inv.waits (h : st.Inv) (hc : st.control = .running co)
    (hth : st.threads co = .running job) {w : Wait}
    (hwait : (Thread.waiting job w).awaits = some (st.issued + 1)) :
    ({ st with
      issued := st.issued + 1
      issuer := Function.update st.issuer (st.issued + 1) (some co)
      threads := Function.update st.threads co (.waiting job w)
      session_id_coroutine :=
        Function.update st.session_id_coroutine (st.issued + 1) (some (.coroutine co))
      sleep_session := Function.update st.sleep_session co (Thread.waiting job w).sleeps
      control := .waking } : State).Inv := by
  have hco := h.agrees co
  constructor
  · intro c
    rcases eq_or_ne c co with rfl | hne
    · refine ⟨?_, ?_, ?_, ?_, ?_, ?_, ?_, ?_⟩ <;> simp only [Function.update_self]
      · rw [hwait]
        exact h.taken_entry (by rw [hth]; rfl)
      · rw [hwait]
        intro s hs
        obtain rfl := Option.some.inj hs
        exact Function.update_self ..
      · intro r hr
        exact hco.handles r (by rw [hth]; exact hr)
      · simp [Thread.isRunning]
      · intro hle
        have := hco.created hle
        rw [hth] at this
        cases this
      · intro hf
        have := hco.forked hf
        rw [hth] at this
        cases this
      · intro hp
        have := hco.pooled hp
        rw [hth] at this
        cases this
    · obtain ⟨hentry, hissuer⟩ := h.taken_others hne
      refine (h.agrees c).frame ⟨?_, hentry, hissuer, ?_, rfl, rfl, ?_, le_rfl, id, id⟩
      · exact Function.update_of_ne hne _ _
      · exact Function.update_of_ne hne _ _
      · rw [hc]
        exact iff_of_false (by simp) (fun heq => hne (Control.running.inj heq).symm)
  · exact h.taken rfl rfl rfl rfl rfl rfl

theorem Inv.call (h : st.Inv) (hlt : st.issued + 1 < 2147483648)
    (hc : st.control = .running co) : (st.call co).Inv := by
  obtain ⟨job, hth⟩ := h.current hc
  have hsleep : Function.update st.sleep_session co none = st.sleep_session := by
    rw [Function.update_eq_self_iff, (h.agrees co).sleeping, hth]
    rfl
  have hwaits := h.waits hc hth (w := .CALL (st.issued + 1)) rfl
  rw [show (Thread.waiting job (.CALL (st.issued + 1))).sleeps = none from rfl, hsleep] at hwaits
  unfold State.call
  rw [newsession_eq hlt]
  simp only [yields, hth]
  exact hwaits

theorem Inv.sleep (h : st.Inv) (hlt : st.issued + 1 < 2147483648)
    (hc : st.control = .running co) : (st.sleep co).Inv := by
  obtain ⟨job, hth⟩ := h.current hc
  unfold State.sleep
  rw [newsession_eq hlt]
  simp only [yields, hth]
  exact h.waits hc hth (w := .SLEEP (st.issued + 1)) rfl

end State

end DnServer.Skynet.Lua
