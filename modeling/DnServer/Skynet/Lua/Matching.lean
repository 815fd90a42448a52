import DnServer.Skynet.Lua.Tables

/-!
# Responses find their coroutines

Every action of a coroutine and every message keeps what the tables say. So a
response resumes the coroutine that took its session and waits for it, a session
ends one wait at most, and a `skynet.ret` goes to whoever sent the request that
its coroutine handles.

* `reachable_inv`: the tables of sessions and coroutines agree with the threads that
  wait (`Inv`), for every action and event.
* `responses_match`: so a response wakes the thread that has its session, a late one
  none (`Inv.late`), and `ret` sends to the source of the request it runs for
  (`Inv.ret_sends`).
-/

namespace DnServer.Skynet.Lua

open DnServer.Lib

namespace State

variable {st st' : State} {co s : ℕ} {job : Job} {args : Args}

/-! ## New coroutines -/

/-- `co_create` gives a coroutine that no table speaks of. -/
theorem co_create_eq (h : st.Inv) (f : Func) : ∃ co created,
    st.co_create f = ({ st with
      threads := Function.update st.threads co (.ready f)
      coroutine_pool := none
      created := created }, co) ∧
    st.created ≤ created ∧ co < created ∧
    (st.threads co = .absent ∨ st.threads co = .exited) := by
  unfold State.co_create
  cases hp : st.coroutine_pool with
  | none =>
    refine ⟨st.created, st.created + 1, ?_, Nat.le_succ _, Nat.lt_succ_self _, ?_⟩
    · cases st
      cases hp
      rfl
    · exact .inl ((h.agrees _).created le_rfl)
  | some co =>
    have hth := (h.agrees co).pooled hp
    refine ⟨co, st.created, rfl, le_rfl, ?_, .inr hth⟩
    by_contra hge
    rw [(h.agrees co).created (not_lt.mp hge)] at hth
    cases hth

/-- A coroutine that has no function or has ended is in no table. -/
theorem Agrees.unused (h : st.Agrees co) (hth : st.threads co = .absent ∨ st.threads co = .exited) :
    (st.threads co).awaits = none ∧ st.sleep_session co = none ∧
      st.session_coroutine_id co = none ∧ st.session_coroutine_address co = none ∧
      st.control ≠ .running co ∧ co ∉ st.fork_queue := by
  have hsleep := h.sleeping
  have hnames := h.handles none
  have hrun := h.running
  have hforked := h.forked
  obtain hth | hth := hth <;> rw [hth] at hsleep hnames hrun hforked ⊢
  · refine ⟨rfl, hsleep, (hnames rfl).1, (hnames rfl).2, ?_, ?_⟩
    · intro hc
      cases hrun.mpr hc
    · intro hf
      cases hforked hf
  · refine ⟨rfl, hsleep, (hnames rfl).1, (hnames rfl).2, ?_, ?_⟩
    · intro hc
      cases hrun.mpr hc
    · intro hf
      cases hforked hf

/-- A new coroutine with its function; what it waits for is entered by the caller. -/
theorem Inv.create (h : st.Inv) {f : Func} {created : ℕ} (hle : st.created ≤ created)
    (hlt : co < created) (hth : st.threads co = .absent ∨ st.threads co = .exited)
    {entry : ℕ → Option Entry} {issuer : ℕ → Option ℕ} {id : ℕ → Option ℤ}
    {address : ℕ → Option ℕ} {forks : List ℕ}
    (hothers : ∀ c, c ≠ co →
      (∀ s, entry s = some (.coroutine c) ↔ st.session_id_coroutine s = some (.coroutine c)) ∧
      (∀ s, (st.threads c).awaits = some s → issuer s = st.issuer s) ∧
      id c = st.session_coroutine_id c ∧ address c = st.session_coroutine_address c ∧
      (c ∈ forks → c ∈ st.fork_queue))
    (hentry : ∀ s, entry s = some (.coroutine co) ↔ (Thread.ready f).awaits = some s)
    (hissuer : ∀ s, (Thread.ready f).awaits = some s → issuer s = some co)
    (hnames : ∀ r, (Thread.ready f).handles = some r →
      id co = r.map Prod.fst ∧ address co = r.map Prod.snd)
    (hforks : co ∈ forks → f = .fork) (c issued : ℕ) :
    ({ st with
      issued := issued
      threads := Function.update st.threads co (.ready f)
      coroutine_pool := none
      created := created
      session_id_coroutine := entry
      issuer := issuer
      session_coroutine_id := id
      session_coroutine_address := address
      fork_queue := forks } : State).Agrees c := by
  obtain ⟨-, hsleep, -, -, hcontrol, -⟩ := (h.agrees co).unused hth
  rcases eq_or_ne c co with rfl | hne
  · refine ⟨?_, ?_, ?_, ?_, ?_, ?_, ?_, ?_⟩ <;> simp only [Function.update_self]
    · exact hentry
    · exact hissuer
    · exact hsleep
    · exact hnames
    · exact iff_of_false (by simp [Thread.isRunning]) hcontrol
    · intro hc
      exact absurd hc (not_le.mpr hlt)
    · intro hf
      rw [hforks hf]
    · intro hp
      cases hp
  · obtain ⟨ho₁, ho₂, ho₃, ho₄, ho₅⟩ := hothers c hne
    refine (h.agrees c).frame ⟨?_, ho₁, ho₂, rfl, ho₃, ho₄, Iff.rfl, hle, ho₅, ?_⟩
    · exact Function.update_of_ne hne _ _
    · intro hp
      cases hp

theorem Inv.timeout (h : st.Inv) (hlt : st.issued + 1 < 2147483648) : st.timeout.Inv := by
  have hinv : ({ st with issued := st.issued + 1 } : State).Inv :=
    ⟨fun c => { h.agrees c with }, h.recorded.congr (Nat.le_succ _) rfl rfl rfl rfl rfl⟩
  obtain ⟨co, created, hcreate, hle, hco, hth⟩ := co_create_eq hinv (.timeout (st.issued + 1))
  obtain ⟨hw, -, hid, haddress, -, hforked⟩ := (h.agrees co).unused hth
  unfold State.timeout
  rw [newsession_eq hlt]
  simp only [hcreate]
  rw [if_pos h.fresh.1]
  refine ⟨fun c => h.create hle hco hth ?_ ?_ ?_ ?_ ?_ c (st.issued + 1), ?_⟩
  · intro c hne
    obtain ⟨hentry, hissuer⟩ := h.taken_others hne
    exact ⟨hentry, hissuer, rfl, rfl, id⟩
  · exact h.taken_entry hw
  · intro s hs
    obtain rfl := Option.some.inj hs
    exact Function.update_self ..
  · intro r hr
    obtain rfl := Option.some.inj hr
    exact ⟨hid, haddress⟩
  · intro hf
    exact absurd hf hforked
  · exact h.taken rfl rfl rfl rfl rfl rfl

theorem Inv.fork (h : st.Inv) : st.fork.Inv := by
  obtain ⟨co, created, hcreate, hle, hco, hth⟩ := co_create_eq h .fork
  obtain ⟨hw, -, hid, haddress, -, hforked⟩ := (h.agrees co).unused hth
  unfold State.fork
  simp only [hcreate]
  refine ⟨fun c => h.create hle hco hth ?_ ?_ ?_ ?_ ?_ c st.issued, ?_⟩
  · intro c hne
    refine ⟨fun s => Iff.rfl, fun s _ => rfl, rfl, rfl, ?_⟩
    intro hf
    obtain hf | hf := List.mem_append.mp hf
    · exact hf
    · exact absurd (List.mem_singleton.mp hf) hne
  · intro s
    rw [(h.agrees co).entry, hw]
    rfl
  · intro s hs
    cases hs
  · intro r hr
    obtain rfl := Option.some.inj hr
    exact ⟨hid, haddress⟩
  · exact fun _ => rfl
  · have hr := h.recorded
    refine ⟨hr.issued, ?_, hr.resumed, hr.once, hr.rets⟩
    show (st.fork_queue ++ [co]).Nodup
    rw [List.nodup_append_comm]
    exact List.nodup_cons.mpr ⟨hforked, hr.forks⟩

/-- A request gets a coroutine of its own, and its source and session are kept under it. -/
theorem Inv.dispatch_request (h : st.Inv) (hidle : st.control = .idle) (session : ℤ) (source : ℕ)
    (unpacked : Bool) : (st.dispatch_request session source unpacked).Inv := by
  obtain ⟨co, created, hcreate, hle, hco, hth⟩ := co_create_eq h .dispatch
  obtain ⟨hw, -, -, -, -, hforked⟩ := (h.agrees co).unused hth
  unfold State.dispatch_request
  simp only [hcreate]
  have hmade : ∀ c, ({ st with
      threads := Function.update st.threads co (.ready .dispatch)
      coroutine_pool := none
      created := created
      session_coroutine_id := Function.update st.session_coroutine_id co (some session)
      session_coroutine_address :=
        Function.update st.session_coroutine_address co (some source) } : State).Agrees c := by
    intro c
    refine h.create hle hco hth ?_ ?_ ?_ ?_ ?_ c st.issued
    · intro c hne
      exact ⟨fun s => Iff.rfl, fun s _ => rfl, Function.update_of_ne hne _ _,
        Function.update_of_ne hne _ _, id⟩
    · intro s
      rw [(h.agrees co).entry, hw]
      rfl
    · intro s hs
      cases hs
    · intro r hr
      cases hr
    · intro hf
      exact absurd hf hforked
  have hrecorded : ({ st with
      threads := Function.update st.threads co (.ready .dispatch)
      coroutine_pool := none
      created := created
      session_coroutine_id := Function.update st.session_coroutine_id co (some session)
      session_coroutine_address :=
        Function.update st.session_coroutine_address co (some source) } : State).Recorded :=
    h.recorded.congr le_rfl rfl rfl rfl rfl rfl
  cases unpacked with
  | false => exact ⟨hmade, hrecorded⟩
  | true =>
    have hself := hmade co
    have hjob : ((Function.update st.threads co (.ready .dispatch)) co).started
        (.request session source) = some ⟨.dispatch, .request session source⟩ := by
      rw [Function.update_self]
      rfl
    constructor
    · refine agrees_resume (fun c _ => hmade c) ?_ hself.sleeping hjob
        (Function.update_self ..) (Function.update_self ..) ?_ hco hforked (by simp)
      · intro s hs
        have := (hself.entry s).mp hs
        simp only [Function.update_self] at this
        cases this
      · intro c _ hc
        rw [hidle] at hc
        cases hc
    · exact recorded_resume hrecorded hself.sleeping hjob

/-! ## The other actions and messages -/

/-- A record of who is to be woken tells nothing of a coroutine. -/
theorem Inv.wakeups (h : st.Inv) (l : Finset ℕ) :
    ({ st with wakeup_session := l } : State).Inv :=
  ⟨fun c => { h.agrees c with }, h.recorded.congr le_rfl rfl rfl rfl rfl rfl⟩

theorem Inv.wakeup (h : st.Inv) (co : ℕ) : (st.wakeup co).Inv := by
  unfold State.wakeup
  split
  · exact h.wakeups _
  · exact h

/-- While no coroutine runs the main state goes on as it likes. -/
theorem Inv.control (h : st.Inv) (hcontrol : ∀ c, st.control ≠ .running c) {k : Control}
    (hnot : ∀ c, k ≠ .running c) : ({ st with control := k } : State).Inv := by
  refine ⟨?_, h.recorded.congr le_rfl rfl rfl rfl rfl rfl⟩
  intro c
  refine (h.agrees c).frame ⟨rfl, fun _ => Iff.rfl, fun _ _ => rfl, rfl, rfl, rfl, ?_, le_rfl, id,
    id⟩
  exact iff_of_false (hnot c) (hcontrol c)

/-- The running coroutine `co` stops for good, or waits for no session. -/
theorem Inv.stops (h : st.Inv) (hc : st.control = .running co) {t : Thread}
    (hawaits : t.awaits = none) (hsleeps : t.sleeps = none) (hrun : t.isRunning = false)
    {control : Control} (hnot : ∀ c, control ≠ .running c) {pool : Option ℕ}
    (hpool : pool = st.coroutine_pool ∨ pool = some co ∧ t = .exited)
    {id : ℕ → Option ℤ} {address : ℕ → Option ℕ}
    (hid : ∀ c, c ≠ co → id c = st.session_coroutine_id c)
    (haddress : ∀ c, c ≠ co → address c = st.session_coroutine_address c)
    (hnames : ∀ r, t.handles = some r → id co = r.map Prod.fst ∧ address co = r.map Prod.snd) :
    ({ st with
      coroutine_pool := pool
      threads := Function.update st.threads co t
      session_coroutine_id := id
      session_coroutine_address := address
      control := control } : State).Inv := by
  obtain ⟨job, hth⟩ := h.current hc
  have hco := h.agrees co
  refine ⟨?_, h.recorded.congr le_rfl rfl rfl rfl rfl rfl⟩
  intro c
  rcases eq_or_ne c co with rfl | hne
  · refine ⟨?_, ?_, ?_, ?_, ?_, ?_, ?_, ?_⟩ <;> simp only [Function.update_self]
    · intro s
      rw [hco.entry, hth, hawaits]
      rfl
    · intro s hs
      rw [hawaits] at hs
      cases hs
    · rw [hsleeps, hco.sleeping, hth]
      rfl
    · exact hnames
    · rw [hrun]
      exact iff_of_false (by decide) (hnot c)
    · intro hle
      have := hco.created hle
      rw [hth] at this
      cases this
    · intro hf
      have := hco.forked hf
      rw [hth] at this
      cases this
    · intro hp
      obtain hpool | ⟨-, hexited⟩ := hpool
      · have := hco.pooled (hpool ▸ hp)
        rw [hth] at this
        cases this
      · exact hexited
  · refine (h.agrees c).frame ⟨?_, fun _ => Iff.rfl, fun _ _ => rfl, rfl, hid c hne,
      haddress c hne, ?_, le_rfl, fun hf => hf, ?_⟩
    · exact Function.update_of_ne hne _ _
    · rw [hc]
      exact iff_of_false (hnot c) (fun heq => hne (Control.running.inj heq).symm)
    · intro hp
      obtain hpool | ⟨hpool, -⟩ := hpool
      · exact hpool ▸ hp
      · exact absurd (Option.some.inj (hpool.symm.trans hp)) hne.symm

theorem Inv.finish (h : st.Inv) (hc : st.control = .running co) : (st.finish co).Inv := by
  refine h.stops hc (t := .exited) rfl rfl rfl (by simp) (.inr ⟨rfl, rfl⟩) ?_ ?_ ?_
  · exact fun c hne => Function.update_of_ne hne _ _
  · exact fun c hne => Function.update_of_ne hne _ _
  · intro r hr
    obtain rfl := Option.some.inj hr
    exact ⟨Function.update_self .., Function.update_self ..⟩

theorem Inv.fail (h : st.Inv) (hc : st.control = .running co) : (st.fail co).Inv := by
  refine h.stops hc (t := .dead) rfl rfl rfl (by simp) (.inl rfl) (fun _ _ => rfl)
    (fun _ _ => rfl) ?_
  intro r hr
  cases hr

/-- What `skynet.ret` sends goes where the tables say, and the coroutine goes on. -/
theorem Inv.ret (h : st.Inv) (hc : st.control = .running co) (sent : Bool) :
    (st.ret co sent).Inv := by
  obtain ⟨job, hth⟩ := h.current hc
  have hco := h.agrees co
  obtain ⟨hid, haddress⟩ := hco.handles job.request (by rw [hth]; rfl)
  have hyield : ({ st with
      threads := Function.update st.threads co (.waiting job .RETURN)
      control := .idle } : State).Inv := by
    refine h.stops hc (t := .waiting job .RETURN) rfl rfl rfl (by simp) (.inl rfl)
      (fun _ _ => rfl) (fun _ _ => rfl) ?_
    intro r hr
    obtain rfl := Option.some.inj hr
    exact ⟨hid, haddress⟩
  have hrecorded : ({ st with
      threads := Function.update st.threads co (.waiting job .RETURN)
      rets := ⟨st.session_coroutine_address co, st.session_coroutine_id co, job⟩ :: st.rets } :
        State).Recorded := by
    have hr := h.recorded
    refine ⟨hr.issued, hr.forks, hr.resumed, hr.once, ?_⟩
    intro n hn
    obtain rfl | hn := List.mem_cons.mp hn
    · exact ⟨hid, haddress⟩
    · exact hr.rets n hn
  unfold State.ret
  simp only [hth, yields, suspend_RETURN]
  split
  · have hself := hyield.agrees co
    have hjob : ((Function.update st.threads co (.waiting job .RETURN)) co).started .nothing =
        some job := by
      rw [Function.update_self]
      rfl
    constructor
    · refine agrees_resume ?_ ?_ hself.sleeping hjob hid haddress ?_ ?_ ?_ ?_
      · intro c hne
        refine (hyield.agrees c).frame ⟨rfl, fun _ => Iff.rfl, fun _ _ => rfl, rfl, rfl, rfl, ?_,
          le_rfl, id, id⟩
        show st.control = _ ↔ _
        rw [hc]
        exact iff_of_false (fun heq => hne (Control.running.inj heq).symm) (by simp)
      · intro s hs
        have := (hco.entry s).mp hs
        rw [hth] at this
        cases this
      · intro c hne heq
        exact hne (Control.running.inj (hc.symm.trans heq)).symm
      · by_contra hge
        have := hco.created (not_lt.mp hge)
        rw [hth] at this
        cases this
      · intro hf
        have := hco.forked hf
        rw [hth] at this
        cases this
      · intro hp
        have := hco.pooled hp
        rw [hth] at this
        cases this
    · exact recorded_resume hrecorded hself.sleeping hjob
  · exact ⟨fun c => { hyield.agrees c with }, hrecorded.congr le_rfl rfl rfl rfl rfl rfl⟩

theorem Inv.dispatch_wakeup (h : st.Inv) (hc : st.control = .waking) (co : ℕ) :
    (st.dispatch_wakeup co).Inv := by
  have hnot : ∀ c, st.control ≠ .running c := by simp [hc]
  have h' := h.wakeups (st.wakeup_session.erase co)
  unfold State.dispatch_wakeup
  cases hs : st.sleep_session co with
  | none =>
    simp only [hs]
    exact h'.control hnot (k := .forking) (by simp)
  | some s =>
    have hentry : st.session_id_coroutine s = some (.coroutine co) := by
      rw [(h.agrees co).entry]
      have hsleep := (h.agrees co).sleeping
      rw [hs] at hsleep
      unfold Thread.sleeps at hsleep
      split at hsleep
      · rename_i hth
        rw [hth, hsleep]
        rfl
      · cases hsleep
    simp only [hs]
    refine h'.released (e := some .BREAK) hnot hentry (by simp) ?_
    exact fun _ => rfl

theorem Inv.dispatch_response (h : st.Inv) (hc : st.control = .idle) (s : ℕ) (raises : Bool) :
    (st.dispatch_response s raises).Inv := by
  have hnot : ∀ c, st.control ≠ .running c := by simp [hc]
  unfold State.dispatch_response
  split
  · rename_i hs
    have h' := h.control hnot (k := .forking) (by simp)
    refine ⟨?_, ?_⟩
    · intro c
      refine (h'.agrees c).frame ⟨rfl, ?_, fun _ _ => rfl, rfl, rfl, rfl, Iff.rfl, le_rfl, id, id⟩
      intro s'
      show Function.update st.session_id_coroutine s none s' = _ ↔ st.session_id_coroutine s' = _
      rcases eq_or_ne s' s with rfl | hne
      · rw [Function.update_self, hs]
        simp
      · rw [Function.update_of_ne hne]
    · have hr := h.recorded
      have hsub : ∀ s' e, Function.update st.session_id_coroutine s none s' = some e →
          st.session_id_coroutine s' = some e := by
        intro s' e
        rcases eq_or_ne s' s with rfl | hne
        · rw [Function.update_self]
          intro he
          cases he
        · rw [Function.update_of_ne hne]
          exact id
      refine ⟨?_, hr.forks, ?_, hr.once, hr.rets⟩
      · intro s' hs'
        obtain ⟨e, he⟩ := Option.ne_none_iff_exists'.mp hs'
        exact hr.issued s' (by rw [hsub s' e he]; exact Option.some_ne_none _)
      · intro n hn
        obtain ⟨hby, hat, hle, hno⟩ := hr.resumed n hn
        exact ⟨hby, hat, hle, fun c hs' => hno c (hsub _ _ hs')⟩
  · refine h.control hnot ?_
    intro c
    split <;> simp
  · rename_i co hs
    exact h.released (e := none) hnot hs (by simp) (fun _ => rfl)

/-- The next fork starts. -/
theorem Inv.next (h : st.Inv) (hc : st.control = .forking) (hco : co ∈ st.fork_queue) :
    ({ st with fork_queue := st.fork_queue.erase co }.resume co .nothing).Inv := by
  have hnot : ∀ c, st.control ≠ .running c := by simp [hc]
  have hself := h.agrees co
  have hth := hself.forked hco
  have hr := h.recorded
  have hjob : (st.threads co).started .nothing = some ⟨.fork, .nothing⟩ := by
    rw [hth]
    rfl
  obtain ⟨hid, haddress⟩ := hself.handles none (by rw [hth]; rfl)
  constructor
  · refine agrees_resume ?_ ?_ hself.sleeping hjob hid haddress (fun c _ => hnot c) ?_ ?_ ?_
    · intro c _
      exact (h.agrees c).frame ⟨rfl, fun _ => Iff.rfl, fun _ _ => rfl, rfl, rfl, rfl, Iff.rfl,
        le_rfl, List.mem_of_mem_erase, id⟩
    · intro s hs
      have := (hself.entry s).mp hs
      rw [hth] at this
      cases this
    · by_contra hge
      have := hself.created (not_lt.mp hge)
      rw [hth] at this
      cases this
    · exact fun hmem => (List.Nodup.mem_erase_iff hr.forks).mp hmem |>.1 rfl
    · intro hp
      have := hself.pooled hp
      rw [hth] at this
      cases this
  · exact recorded_resume ⟨hr.issued, hr.forks.erase co, hr.resumed, hr.once, hr.rets⟩
      hself.sleeping hjob

/-! ## Every run -/

@[simp] theorem resume_issued : (st.resume co args).issued = st.issued := by
  unfold State.resume
  split <;> rfl

@[simp] theorem co_create_issued (f : Func) : (st.co_create f).1.issued = st.issued := by
  unfold State.co_create
  split <;> rfl

@[simp] theorem yields_issued (w : Wait) : (st.yields co w).issued = st.issued := by
  unfold State.yields
  split <;> rfl

theorem timeout_issued : st.timeout.issued = st.issued + 1 := by
  unfold State.timeout
  simp only
  split <;> simp [newsession]

/-- What an action leaves of the session counter, and that it keeps the invariant. -/
theorem Inv.act (h : st.issued < 2147483648 → st.Inv) (hc : st.control = .running co) (a : Action)
    (hlt : (st.act co a).issued < 2147483648) : (st.act co a).Inv := by
  cases a with
  | call =>
    have hnext : st.issued + 1 < 2147483648 := by
      simpa [State.act, State.call, suspend_CALL, newsession] using hlt
    exact (h (by omega)).call hnext hc
  | lost =>
    have hnext : st.issued + 1 < 2147483648 := hlt
    have hinv := h (by omega)
    exact ⟨fun c => { hinv.agrees c with },
      hinv.recorded.congr (Nat.le_succ _) rfl rfl rfl rfl rfl⟩
  | sleep =>
    have hnext : st.issued + 1 < 2147483648 := by
      simpa [State.act, State.sleep, suspend_SLEEP, newsession] using hlt
    exact (h (by omega)).sleep hnext hc
  | timeout =>
    have hnext : st.issued + 1 < 2147483648 := timeout_issued ▸ hlt
    exact (h (by omega)).timeout hnext
  | wakeup c =>
    refine (h ?_).wakeup c
    rw [State.act, State.wakeup] at hlt
    split at hlt <;> exact hlt
  | fork =>
    refine (h ?_).fork
    simpa [State.act, State.fork] using hlt
  | ret sent =>
    refine (h ?_).ret hc sent
    rw [State.act, State.ret] at hlt
    split at hlt
    · rw [suspend_RETURN] at hlt
      split at hlt
      · simpa using hlt
      · simpa using hlt
    · exact hlt
  | finish => exact (h hlt).finish hc
  | fail => exact (h hlt).fail hc

/-- The main chunk can do what no coroutine is needed for. -/
theorem Inv.load (h : st.issued < 2147483648 → st.Inv) {a : Action}
    (hstep : st.load a = some st') (hlt : st'.issued < 2147483648) : st'.Inv := by
  cases a with
  | lost =>
    obtain rfl := Option.some.inj hstep
    have hnext : st.issued + 1 < 2147483648 := hlt
    have hinv := h (by omega)
    exact ⟨fun c => { hinv.agrees c with },
      hinv.recorded.congr (Nat.le_succ _) rfl rfl rfl rfl rfl⟩
  | timeout =>
    obtain rfl := Option.some.inj hstep
    have hnext : st.issued + 1 < 2147483648 := timeout_issued ▸ hlt
    exact (h (by omega)).timeout hnext
  | wakeup c =>
    obtain rfl := Option.some.inj hstep
    refine (h ?_).wakeup c
    rw [State.wakeup] at hlt
    split at hlt <;> exact hlt
  | fork =>
    obtain rfl := Option.some.inj hstep
    refine (h ?_).fork
    simpa [State.fork] using hlt
  | call | sleep | ret | finish | fail => cases hstep

theorem start_inv : start.Inv where
  agrees := by
    intro c
    refine ⟨?_, ?_, rfl, ?_, ?_, fun _ => rfl, ?_, ?_⟩ <;> simp [start, Thread.awaits,
      Thread.handles, Thread.isRunning]
  recorded := by
    refine ⟨?_, ?_, ?_, ?_, ?_⟩ <;> simp [start]

theorem Inv.exec (h : st.issued < 2147483648 → st.Inv) {e : Event} (hstep : st.exec e = some st')
    (hlt : st'.issued < 2147483648) : st'.Inv := by
  cases e with
  | action a =>
    simp only [State.exec] at hstep
    split at hstep
    · rename_i hc
      obtain rfl := Option.some.inj hstep
      exact Inv.act h hc a hlt
    · exact Inv.load h hstep hlt
    · cases hstep
  | loaded =>
    obtain ⟨hc, ⟨⟩⟩ := Option.ite_none_right_eq_some.mp hstep
    exact (h hlt).control (by simp [hc]) (by simp)
  | request session source unpacked =>
    obtain ⟨hc, ⟨⟩⟩ := Option.ite_none_right_eq_some.mp hstep
    refine (h ?_).dispatch_request hc session source unpacked
    simp only [State.dispatch_request] at hlt
    split at hlt <;> simpa using hlt
  | response session raises =>
    obtain ⟨hc, ⟨⟩⟩ := Option.ite_none_right_eq_some.mp hstep
    refine (h ?_).dispatch_response hc session raises
    rw [State.dispatch_response] at hlt
    split at hlt <;> simpa [State.record] using hlt
  | wake co =>
    cases co with
    | none =>
      obtain ⟨⟨hc, -⟩, ⟨⟩⟩ := Option.ite_none_right_eq_some.mp hstep
      exact (h hlt).control (by simp [hc]) (by simp)
    | some co =>
      obtain ⟨⟨hc, -⟩, ⟨⟩⟩ := Option.ite_none_right_eq_some.mp hstep
      refine (h ?_).dispatch_wakeup hc co
      rw [State.dispatch_wakeup] at hlt
      simp only at hlt
      split at hlt <;> simpa [State.record] using hlt
  | next co =>
    cases co with
    | none =>
      obtain ⟨⟨hc, -⟩, ⟨⟩⟩ := Option.ite_none_right_eq_some.mp hstep
      exact (h hlt).control (by simp [hc]) (by simp)
    | some co =>
      obtain ⟨⟨hc, hmem⟩, ⟨⟩⟩ := Option.ite_none_right_eq_some.mp hstep
      refine (h ?_).next hc hmem
      simpa using hlt

theorem reachable_inv (h : system.Reachable st) (hlt : st.issued < 2147483648) : st.Inv := by
  revert hlt
  induction h with
  | init hst =>
    intro
    rw [hst]
    exact start_inv
  | step _ hstep ih => exact fun hlt => Inv.exec ih hstep hlt

/-- Responses, wakeups and returns find the coroutine or the request they belong to. -/
structure Sound (st : State) : Prop where
  /-- A response resumes the coroutine that waits for its session, and no other. -/
  response : st.control = .idle → ∀ session raises co,
    (st.dispatch_response session raises).control = .running co ↔
      (st.threads co).awaits = some session
  /-- A coroutine waits for a session only if it was taken for it. -/
  issuer : ∀ co session, (st.threads co).awaits = some session → st.issuer session = some co
  /-- So it was with everyone who was resumed out of a wait, by a response or by a wakeup. -/
  resumed : ∀ n ∈ st.resumed, n.thread.awaits = some n.session ∧ st.issuer n.session = some n.co
  once : (st.resumed.map Resumption.session).Nodup
  /-- When the wait for a session is over, its response resumes nobody any more. -/
  late : st.control = .idle → ∀ n ∈ st.resumed, ∀ raises,
    (st.dispatch_response n.session raises).threads = st.threads ∧
      ∀ co, (st.dispatch_response n.session raises).control ≠ .running co
  /-- What is returned goes to the source and session of the request that is handled. -/
  rets : ∀ n ∈ st.rets, n.session = n.job.request.map Prod.fst ∧
    n.address = n.job.request.map Prod.snd
  /-- A `skynet.ret` of the coroutine that runs sends one answer, to the source and session of the
  request that the call in it handles; with a request, and if `c.send` goes through, it runs on. -/
  ret : ∀ co, st.control = .running co → ∃ job, st.threads co = .running job ∧ ∀ sent,
    ∃ st', st.exec (.action (.ret sent)) = some st' ∧
      st'.rets = ⟨job.request.map Prod.snd, job.request.map Prod.fst, job⟩ :: st.rets ∧
      (job.request.isSome = true → sent = true →
        st'.control = .running co ∧ st'.threads co = .running job)
  /-- A request that comes is handled by a coroutine that runs with it. -/
  request : ∀ session source st', st.exec (.request session source true) = some st' →
    ∃ co job, st'.control = .running co ∧ st'.threads co = .running job ∧
      job.request = some (session, source)
  /-- Through all yields the coroutine handles the request that it was started with. -/
  kept : ∀ e st', st.exec e = some st' → ∀ co job, (st.threads co).job = some job →
    (st'.threads co).job = some job ∨ st'.threads co = .exited ∨ st'.threads co = .dead

theorem Inv.response_iff (h : st.Inv) (session : ℕ) (raises : Bool) (co : ℕ) :
    (st.dispatch_response session raises).control = .running co ↔
      (st.threads co).awaits = some session := by
  rw [← (h.agrees co).entry]
  unfold State.dispatch_response
  cases hs : st.session_id_coroutine session with
  | none =>
    cases raises <;> simp
  | some e =>
    cases e with
    | BREAK => simp
    | coroutine c =>
      have hagrees := h.agrees c
      obtain ⟨job, hjob, -⟩ := hagrees.started ((hagrees.entry _).mp hs)
        (fun _ => (rfl : Job.request ⟨_, .response⟩ = none))
      simp only
      rw [resume_control]
      · simp
      · exact hjob

theorem Inv.late (h : st.Inv) {n : Resumption} (hn : n ∈ st.resumed) (raises : Bool) :
    (st.dispatch_response n.session raises).threads = st.threads ∧
      ∀ co, (st.dispatch_response n.session raises).control ≠ .running co := by
  have hno := (h.recorded.resumed n hn).2.2.2
  unfold State.dispatch_response
  split
  · exact ⟨rfl, by simp⟩
  · refine ⟨rfl, ?_⟩
    intro co
    cases raises <;> simp
  · rename_i c hs
    exact absurd hs (hno c)

/-! ## The request that a coroutine handles -/

theorem Inv.ret_sends (h : st.Inv) (hc : st.control = .running co) :
    ∃ job, st.threads co = .running job ∧ ∀ sent,
      ∃ st', st.exec (.action (.ret sent)) = some st' ∧
        st'.rets = ⟨job.request.map Prod.snd, job.request.map Prod.fst, job⟩ :: st.rets ∧
        (job.request.isSome = true → sent = true →
          st'.control = .running co ∧ st'.threads co = .running job) := by
  obtain ⟨job, hth⟩ := h.current hc
  obtain ⟨hid, haddress⟩ := (h.agrees co).handles job.request (by rw [hth]; rfl)
  refine ⟨job, hth, fun sent => ⟨st.ret co sent, by simp only [State.exec, hc, State.act], ?_⟩⟩
  simp only [State.ret, hth, yields, suspend_RETURN, hid, haddress]
  split
  · simp [resume]
  · rename_i hno
    refine ⟨rfl, fun hsome hsent => absurd ⟨?_, hsent⟩ hno⟩
    rw [Option.isSome_map]
    exact hsome

theorem Inv.request_runs (h : st.Inv) {session : ℤ} {source : ℕ}
    (hstep : st.exec (.request session source true) = some st') :
    ∃ co job, st'.control = .running co ∧ st'.threads co = .running job ∧
      job.request = some (session, source) := by
  obtain ⟨-, ⟨⟩⟩ := Option.ite_none_right_eq_some.mp hstep
  obtain ⟨co, created, hcreate, -⟩ := co_create_eq h .dispatch
  refine ⟨co, ⟨.dispatch, .request session source⟩, ?_⟩
  simp [State.dispatch_request, hcreate, resume, Job.request]

theorem job_resume (args : Args) (hjob : (st.threads co).job = some job) (c : ℕ) :
    ((st.resume c args).threads co).job = some job := by
  unfold resume
  split
  · rename_i hth
    rcases eq_or_ne co c with rfl | hne
    · rw [hth] at hjob
      cases hjob
    · simpa [hne] using hjob
  · rename_i hth
    rcases eq_or_ne co c with rfl | hne
    · rw [hth] at hjob
      simpa [Thread.job] using hjob
    · simpa [hne] using hjob
  · rename_i hth
    rcases eq_or_ne co c with rfl | hne
    · rw [hth] at hjob
      simpa [Thread.job] using hjob
    · simpa [hne] using hjob
  · exact hjob

theorem job_yields (hjob : (st.threads co).job = some job) (c : ℕ) (wait : Wait) :
    ((st.yields c wait).threads co).job = some job := by
  unfold yields
  split
  · rename_i hth
    rcases eq_or_ne co c with rfl | hne
    · rw [hth] at hjob
      simpa [Thread.job] using hjob
    · simpa [hne] using hjob
  · exact hjob

/-- A new coroutine takes the place of none that handles a call. -/
theorem Inv.job_create (h : st.Inv) (hjob : (st.threads co).job = some job) (f : Func) :
    ((st.co_create f).1.threads co).job = some job := by
  obtain ⟨c, created, hcreate, -, -, hth⟩ := co_create_eq h f
  rw [hcreate]
  have hne : co ≠ c := by
    rintro rfl
    rcases hth with hth | hth <;> rw [hth] at hjob <;> cases hjob
  simpa [hne] using hjob

theorem Inv.job_timeout (h : st.Inv) (hjob : (st.threads co).job = some job) :
    (st.timeout.threads co).job = some job := by
  have hissued : ({ st with issued := st.issued + 1 } : State).Inv :=
    ⟨fun c => { h.agrees c with }, h.recorded.congr (Nat.le_succ _) rfl rfl rfl rfl rfl⟩
  have hcreate := hissued.job_create hjob (.timeout ((st.issued + 1) % 2147483648))
  unfold State.timeout newsession
  simp only
  split
  · exact hcreate
  · exact hcreate

theorem Inv.job_act (h : st.Inv) (hjob : (st.threads co).job = some job) (c : ℕ) (a : Action) :
    ((st.act c a).threads co).job = some job ∨ (st.act c a).threads co = .exited ∨
      (st.act c a).threads co = .dead := by
  cases a with
  | call =>
    refine .inl ?_
    simp only [State.act, State.call, newsession, suspend_CALL]
    exact job_yields (by exact hjob) c _
  | lost => exact .inl hjob
  | sleep =>
    refine .inl ?_
    simp only [State.act, State.sleep, newsession, suspend_SLEEP]
    exact job_yields (by exact hjob) c _
  | timeout => exact .inl (h.job_timeout hjob)
  | wakeup c' =>
    refine .inl ?_
    simp only [State.act, State.wakeup]
    split
    · exact hjob
    · exact hjob
  | fork => exact .inl (h.job_create hjob .fork)
  | ret sent =>
    refine .inl ?_
    simp only [State.act, State.ret]
    split
    · have hyield := job_yields hjob c .RETURN
      simp only [suspend_RETURN]
      split
      · exact job_resume .nothing (by exact hyield) c
      · exact hyield
    · exact hjob
  | finish =>
    rcases eq_or_ne co c with rfl | hne
    · exact .inr (.inl (by simp [State.act, State.finish, suspend_EXIT]))
    · exact .inl (by simpa [State.act, State.finish, suspend_EXIT, hne] using hjob)
  | fail =>
    rcases eq_or_ne co c with rfl | hne
    · exact .inr (.inr (by simp [State.act, State.fail]))
    · exact .inl (by simpa [State.act, State.fail, hne] using hjob)

theorem Inv.job_kept (h : st.Inv) {e : Event} (hstep : st.exec e = some st')
    (hjob : (st.threads co).job = some job) :
    (st'.threads co).job = some job ∨ st'.threads co = .exited ∨ st'.threads co = .dead := by
  cases e with
  | action a =>
    simp only [State.exec] at hstep
    split at hstep
    · obtain rfl := Option.some.inj hstep
      exact h.job_act hjob _ a
    · cases a <;> cases hstep
      · exact .inl hjob
      · exact .inl (h.job_timeout hjob)
      · exact h.job_act hjob co (.wakeup _)
      · exact h.job_act hjob co .fork
    · cases hstep
  | loaded =>
    obtain ⟨-, ⟨⟩⟩ := Option.ite_none_right_eq_some.mp hstep
    exact .inl hjob
  | request session source unpacked =>
    obtain ⟨-, ⟨⟩⟩ := Option.ite_none_right_eq_some.mp hstep
    refine .inl ?_
    have hcreate := h.job_create hjob .dispatch
    simp only [State.dispatch_request]
    split
    · exact job_resume _ (by exact hcreate) _
    · exact hcreate
  | response session raises =>
    obtain ⟨-, ⟨⟩⟩ := Option.ite_none_right_eq_some.mp hstep
    refine .inl ?_
    rw [State.dispatch_response]
    split
    · exact hjob
    · exact hjob
    · exact job_resume .response (by exact hjob) _
  | wake c =>
    cases c with
    | none =>
      obtain ⟨-, ⟨⟩⟩ := Option.ite_none_right_eq_some.mp hstep
      exact .inl hjob
    | some c =>
      obtain ⟨-, ⟨⟩⟩ := Option.ite_none_right_eq_some.mp hstep
      refine .inl ?_
      rw [State.dispatch_wakeup]
      simp only
      split
      · exact job_resume .wakeup (by exact hjob) c
      · exact hjob
  | next c =>
    cases c with
    | none =>
      obtain ⟨-, ⟨⟩⟩ := Option.ite_none_right_eq_some.mp hstep
      exact .inl hjob
    | some c =>
      obtain ⟨-, ⟨⟩⟩ := Option.ite_none_right_eq_some.mp hstep
      exact .inl (job_resume .nothing (by exact hjob) c)

/-- Whatever the coroutines do and whichever messages come, while no session is taken twice. -/
theorem responses_match (h : system.Reachable st) (hlt : st.issued < 2147483648) : st.Sound := by
  have hinv := reachable_inv h hlt
  have hr := hinv.recorded
  refine ⟨fun _ => hinv.response_iff, fun co => (hinv.agrees co).issuer, ?_, hr.once,
    fun _ n hn => hinv.late hn, hr.rets, fun _ hc => hinv.ret_sends hc,
    fun _ _ _ hstep => hinv.request_runs hstep, fun _ _ hstep _ _ hjob => hinv.job_kept hstep hjob⟩
  intro n hn
  obtain ⟨hby, hat, -⟩ := hr.resumed n hn
  exact ⟨hat, hby⟩

/-- A request that calls and sleeps; the timeout of another one wakes it before its timer. -/
theorem responses_match_woken :
    ∃ st, system.Reachable st ∧ st.resumed.map Resumption.session = [2, 1] ∧ st.Sound := by
  obtain ⟨st, hst, hend⟩ := TSys.reachable_of_exec (T := system)
    (fun s e t (h : s.exec e = some t) => h) (s := start) rfl
    (l := [.loaded, .request 7 2 true, .action .call, .wake none, .next none, .response 1 true,
      .action .sleep, .wake none, .next none, .request 8 3 true, .action (.wakeup 0),
      .action (.ret true), .action .finish, .wake (some 0), .action (.ret true), .action .finish,
      .wake none, .next none, .response 2 true, .next none])
    (p := fun st => decide (st.issued < 2147483648 ∧ st.resumed.map Resumption.session = [2, 1]))
    (by decide)
  obtain ⟨hlt, hresumed⟩ := of_decide_eq_true hend
  exact ⟨st, hst, hresumed, responses_match hst hlt⟩

end State

end DnServer.Skynet.Lua
