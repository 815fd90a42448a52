import DnServer.Harbor.Names

/-!
# What becomes of messages to names

A run in which no name that is waited for gets a handle of the node itself, and no
write fails where the harbor can be connected again, hands every message over in
order while there is a connection. Any other step of such a run loses a message.

* `delivered_iff_careful`: `Inv.exec` for the careful steps; `exec_loses` shows for the
  others which message is gone, a queue for a name of the node itself
  (`local_name_loses`) among them.
-/

namespace DnServer.Harbor.Names

open DnServer.Lib

variable {ν μ : Type}

namespace HarborState

variable [DecidableEq ν]

/-! ## Connections -/

variable {h h' h'' : HarborState ν μ} {name : ν} {harbor_id fd : ℕ} {connect : Option ℕ}
  {attempt : Attempt} {attempts : List Attempt} {queue queue' : MsgQueue μ} {m : μ} {l : List μ}
  {handle : BitVec 32}

/-- The descriptors and addresses, as the master keeps them. -/
def table (h : HarborState ν μ) : Master where
  remote_fd := h.remote_fd
  remote_addr := h.remote_addr
  map := fun _ => none
  kernel := h.kernel

omit [DecidableEq ν] in
/-- A reconnection gives the entry up or gives it a descriptor that is not open. -/
theorem reconnect_cases (hx : h.reconnect harbor_id fd connect = some h') :
    ∃ addr, h.remote_addr harbor_id = some addr ∧
      ((connect = none ∧
        h' = { h.close fd with remote_fd := Function.update h.remote_fd harbor_id none }) ∨
      ∃ fd', connect = some fd' ∧ (h.close fd).kernel fd' = none ∧ h' = { h with
        remote_fd := Function.update h.remote_fd harbor_id (some fd')
        kernel := Function.update (h.close fd).kernel fd' (some (.harbor addr)) }) := by
  unfold reconnect at hx
  cases haddr : h.remote_addr harbor_id with
  | none =>
    rw [haddr] at hx
    cases hx
  | some addr =>
    rw [haddr] at hx
    refine ⟨addr, rfl, ?_⟩
    cases connect with
    | none => exact .inl ⟨rfl, (Option.some.inj hx).symm⟩
    | some fd' =>
      obtain ⟨⟨-, hfree⟩, hst⟩ := Option.ite_none_right_eq_some.mp hx
      exact .inr ⟨fd', rfl, hfree, (Option.some.inj hst).symm⟩

omit [DecidableEq ν] in
/-- What a reconnection leaves alone. -/
theorem reconnect_frame (hx : h.reconnect harbor_id fd connect = some h') :
    h'.id = h.id ∧ h'.map = h.map ∧ h'.sent = h.sent ∧ h'.log = h.log ∧
      (h'.remote_fd harbor_id).isSome = connect.isSome ∧
      ∀ i, i ≠ harbor_id → h'.remote_fd i = h.remote_fd i := by
  obtain ⟨addr, -, ⟨rfl, rfl⟩ | ⟨fd', rfl, -, rfl⟩⟩ := reconnect_cases hx
  · refine ⟨rfl, rfl, rfl, rfl, ?_, fun i hi => Function.update_of_ne hi _ _⟩
    show (Function.update h.remote_fd harbor_id none harbor_id).isSome = _
    rw [Function.update_self]
  · refine ⟨rfl, rfl, rfl, rfl, ?_, fun i hi => Function.update_of_ne hi _ _⟩
    show (Function.update h.remote_fd harbor_id (some fd') harbor_id).isSome = _
    rw [Function.update_self]

omit [DecidableEq ν] in
theorem reconnect_table (ht : h.table.Sound) (hfd : h.remote_fd harbor_id = some fd)
    (hx : h.reconnect harbor_id fd connect = some h') : h'.table.Sound := by
  have hdrop := Master.Sound.drop (m := h.table) ht hfd
  obtain ⟨addr, haddr, ⟨rfl, rfl⟩ | ⟨fd', rfl, hfree, rfl⟩⟩ := reconnect_cases hx
  · exact hdrop
  · have hrecord : ({ h.table with
        remote_fd :=
          Function.update (Function.update h.remote_fd harbor_id none) harbor_id (some fd')
        remote_addr := Function.update h.remote_addr harbor_id (some addr)
        kernel := Function.update (h.close fd).kernel fd' (some (.harbor addr)) } : Master).Sound :=
      hdrop.record hfree
    have hsame : Function.update h.remote_addr harbor_id (some addr) = h.remote_addr :=
      Function.update_eq_self_iff.mpr haddr.symm
    rw [Function.update_idem, hsame] at hrecord
    exact hrecord

omit [DecidableEq ν] in
/-- The recorded descriptor of a harbor is a connection to it. -/
theorem live_of_table (ht : h.table.Sound) (hfd : h.remote_fd harbor_id = some fd) :
    h.live harbor_id fd = true := by
  obtain ⟨addr, haddr, hk⟩ := ht.connected harbor_id fd hfd
  unfold live
  rw [show h.remote_addr harbor_id = some addr from haddr]
  exact decide_eq_true hk

/-! ## A queue that is handed over -/

/-- The messages `done` of the name had their turn, rightly, and of the harbors only one was
touched. -/
structure Handled (h h' : HarborState ν μ) (name : ν) (harbor_id : ℕ) (done : List μ) : Prop where
  log : ∃ es, h'.log = h.log ++ es ∧ es.map Entry.msg = done ∧
    ∀ e ∈ es, e.name = name ∧ e.fate.Right
  id : h'.id = h.id
  map : h'.map = h.map
  sent : h'.sent = h.sent
  table : h.table.Sound → h'.table.Sound
  others : ∀ i, i ≠ harbor_id → h'.remote_fd i = h.remote_fd i

variable {done done' : List μ} {fate : Fate}

omit [DecidableEq ν] in
theorem Handled.refl (h : HarborState ν μ) (name : ν) (harbor_id : ℕ) :
    h.Handled h name harbor_id [] :=
  ⟨⟨[], by simp, rfl, by simp⟩, rfl, rfl, rfl, fun ht => ht, fun _ _ => rfl⟩

omit [DecidableEq ν] in
theorem Handled.trans (h₁ : h.Handled h' name harbor_id done)
    (h₂ : h'.Handled h'' name harbor_id done') :
    h.Handled h'' name harbor_id (done ++ done') := by
  obtain ⟨es, hlog, hmsg, hes⟩ := h₁.log
  obtain ⟨es', hlog', hmsg', hes'⟩ := h₂.log
  refine ⟨⟨es ++ es', ?_, ?_, ?_⟩, h₂.id.trans h₁.id, h₂.map.trans h₁.map,
    h₂.sent.trans h₁.sent, fun ht => h₂.table (h₁.table ht), ?_⟩
  · rw [hlog', hlog, List.append_assoc]
  · rw [List.map_append, hmsg, hmsg']
  · intro e he
    obtain he | he := List.mem_append.mp he
    · exact hes e he
    · exact hes' e he
  · intro i hi
    rw [h₂.others i hi, h₁.others i hi]

omit [DecidableEq ν] in
theorem Handled.note (h : HarborState ν μ) (name : ν) (harbor_id : ℕ) (m : μ) (fate : Fate)
    (hfate : fate.Right) : h.Handled (h.note name m fate) name harbor_id [m] :=
  ⟨⟨[⟨name, m, fate⟩], rfl, rfl, by simpa using hfate⟩, rfl, rfl, rfl, fun ht => ht,
    fun _ _ => rfl⟩

omit [DecidableEq ν] in
/-- A connection that is given up, for a message that is let go with it. -/
theorem Handled.lost (hfd : h.remote_fd harbor_id = some fd)
    (hx : h.reconnect harbor_id fd none = some h') (name : ν) (m : μ) :
    h.Handled (h'.note name m (.dropped (h'.remote_fd harbor_id).isSome)) name harbor_id [m] := by
  obtain ⟨hid, hmap, hsent, hlog, hfd', hothers⟩ := reconnect_frame hx
  refine ⟨⟨[⟨name, m, .dropped (h'.remote_fd harbor_id).isSome⟩], ?_, rfl, ?_⟩, hid, hmap, hsent,
    fun ht => (reconnect_table ht hfd hx : h'.table.Sound), hothers⟩
  · show h'.log ++ _ = _
    rw [hlog]
  · intro e he
    obtain rfl := List.mem_singleton.mp he
    exact ⟨rfl, hfd'⟩

omit [DecidableEq ν] in
/-- The loop hands the queue over up to the end or to the loss of the connection. -/
theorem dispatch_loop_careful (hq : queue.Represents l) (ht : h.table.Sound)
    (hfd : h.remote_fd harbor_id = some fd) (hc : ∀ a ∈ attempts, Keeps a)
    (hx : dispatch_loop name harbor_id fd attempts h queue = some (h', queue')) :
    ∃ done rest, l = done ++ rest ∧ queue'.Represents rest ∧
      h.Handled h' name harbor_id done ∧ (rest = [] ∨ h'.remote_fd harbor_id = none) := by
  induction attempts generalizing h queue l with
  | nil =>
    obtain ⟨hnone, hst⟩ := Option.ite_none_right_eq_some.mp hx
    cases hst
    cases l with
    | nil => exact ⟨[], [], rfl, hq, .refl _ name harbor_id, .inl rfl⟩
    | cons m l =>
      obtain ⟨queue₁, hpop, -⟩ := hq.pop
      rw [hpop] at hnone
      cases hnone
  | cons attempt attempts ih =>
    unfold dispatch_loop at hx
    cases l with
    | nil =>
      rw [hq.pop_nil] at hx
      cases hx
    | cons m l =>
      obtain ⟨queue₁, hpop, hrest⟩ := hq.pop
      rw [hpop] at hx
      dsimp only at hx
      by_cases herr : attempt.err = true
      · -- the write fails, and so does the reconnection
        rw [if_pos herr] at hx
        have hconnect : attempt.connect = none := by
          obtain hok | hnone := hc attempt List.mem_cons_self
          · rw [hok] at herr
            cases herr
          · exact hnone
        obtain ⟨h₁, hre, hx⟩ := Option.bind_eq_some_iff.mp hx
        rw [hconnect] at hre
        have hgone : (h₁.remote_fd harbor_id).isSome = false := (reconnect_frame hre).2.2.2.2.1
        have hlost := Handled.lost hfd hre name m
        simp only [note, hgone] at hx hlost
        split at hx
        · rename_i htrue
          cases htrue
        · split at hx
          · cases hx
            refine ⟨[m], l, rfl, hrest, hlost, .inr ?_⟩
            exact Option.not_isSome_iff_eq_none.mp (by simp [hgone])
          · cases hx
      · rw [if_neg herr] at hx
        split at hx
        · cases hx
        · have hnote := Handled.note h name harbor_id m (.written (h.live harbor_id fd))
            (live_of_table ht hfd)
          obtain ⟨done, rest, rfl, hq', hhandled, hend⟩ := ih hrest
            (show (h.note name m _).table.Sound from ht) hfd
            (fun a ha => hc a (List.mem_cons_of_mem _ ha)) hx
          exact ⟨m :: done, rest, rfl, hq', hnote.trans hhandled, hend⟩

omit [DecidableEq ν] in
/-- What the loop has recorded stays recorded. -/
theorem dispatch_loop_log
    (hx : dispatch_loop name harbor_id fd attempts h queue = some (h', queue')) :
    ∀ e ∈ h.log, e ∈ h'.log := by
  induction attempts generalizing h queue with
  | nil =>
    obtain ⟨-, hst⟩ := Option.ite_none_right_eq_some.mp hx
    cases hst
    exact fun e he => he
  | cons attempt attempts ih =>
    unfold dispatch_loop at hx
    split at hx
    · split at hx
      · obtain ⟨h₁, hre, hx⟩ := Option.bind_eq_some_iff.mp hx
        have hlog := (reconnect_frame hre).2.2.2.1
        intro e he
        have hkept : ∀ m' fate, e ∈ (h₁.note name m' fate).log := by
          intro m' fate
          show e ∈ h₁.log ++ _
          rw [hlog]
          exact List.mem_append_left _ he
        dsimp only at hx
        split at hx
        · exact ih hx e (hkept _ _)
        · split at hx
          · cases hx
            exact hkept _ _
          · cases hx
      · split at hx
        · cases hx
        · intro e he
          exact ih hx e (List.mem_append_left _ he)
    · cases hx

omit [DecidableEq ν] in
/-- A write that fails where the harbor is connected again loses its message. -/
theorem dispatch_loop_loses (ha : ∃ a ∈ attempts, ¬Keeps a)
    (hx : dispatch_loop name harbor_id fd attempts h queue = some (h', queue')) :
    ∃ e ∈ h'.log, ¬e.fate.Right := by
  induction attempts generalizing h queue with
  | nil =>
    obtain ⟨a, ha, -⟩ := ha
    cases ha
  | cons attempt attempts ih =>
    unfold dispatch_loop at hx
    split at hx
    · rename_i m queue₁ _
      split at hx
      · rename_i herr
        obtain ⟨h₁, hre, hx⟩ := Option.bind_eq_some_iff.mp hx
        have hsome := (reconnect_frame hre).2.2.2.2.1
        dsimp only at hx
        split at hx
        · rename_i hnew
          have hnew : (h₁.remote_fd harbor_id).isSome = true := hnew
          refine ⟨⟨name, m, .dropped (h₁.remote_fd harbor_id).isSome⟩, ?_, ?_⟩
          · exact dispatch_loop_log hx _ (List.mem_append_right _ List.mem_cons_self)
          · rw [hnew]
            exact Bool.noConfusion
        · rename_i hgone
          split at hx
          · rename_i hempty
            obtain rfl := List.isEmpty_iff.mp hempty
            obtain ⟨a, ha, hbad⟩ := ha
            obtain rfl := List.mem_singleton.mp ha
            have hgone : ¬(h₁.remote_fd harbor_id).isSome = true := hgone
            rw [hsome] at hgone
            exact absurd (.inr (Option.not_isSome_iff_eq_none.mp hgone)) hbad
          · cases hx
      · rename_i hok
        split at hx
        · cases hx
        · refine ih ?_ hx
          obtain ⟨a, ha, hbad⟩ := ha
          obtain rfl | ha := List.mem_cons.mp ha
          · exact absurd (.inl (Bool.not_eq_true _ ▸ hok)) hbad
          · exact ⟨a, ha, hbad⟩
    · cases hx

/-! ## The steps -/

/-- The invariant. -/
structure Inv (h : HarborState ν μ) : Prop where
  sound : h.Sound
  table : h.table.Sound
  own : h.remote_fd h.id = none
  nonempty : ∀ name l, (h.map name).queue.isSome → Waiting (h.map name) l → l ≠ []

theorem processed_append {es : List (Entry ν μ)} (hlog : h'.log = h.log ++ es)
    (hes : ∀ e ∈ es, e.name = name) (n : ν) :
    h'.processed n = h.processed n ++ if n = name then es.map Entry.msg else [] := by
  unfold processed
  rw [hlog, List.filter_append, List.map_append]
  by_cases hn : n = name
  · subst hn
    rw [if_pos rfl, List.filter_eq_self.mpr fun e he => decide_eq_true (hes e he)]
  · have hnone : es.filter (fun e => e.name = n) = [] := by
      refine List.filter_eq_nil_iff.mpr ?_
      intro e he heq
      exact hn ((of_decide_eq_true heq).symm.trans (hes e he))
    rw [if_neg hn, hnone, List.map_nil]

omit [DecidableEq ν] in
/-- What is released was let go rightly if it is nothing, or if there is no connection. -/
theorem Handled.release (hl : l = [] ∨ harbor_id ≠ h.id ∧ h.remote_fd harbor_id = none) :
    h.Handled (h.release name harbor_id l) name harbor_id l := by
  refine ⟨⟨_, rfl, by simp [Function.comp_def], ?_⟩, rfl, rfl, rfl, fun ht => ht, fun _ _ => rfl⟩
  intro e he
  obtain ⟨m, hm, rfl⟩ := List.mem_map.mp he
  refine ⟨rfl, ?_⟩
  obtain rfl | ⟨hne, hnone⟩ := hl
  · cases hm
  · show (decide (harbor_id = h.id) || (h.remote_fd harbor_id).isSome) = false
    rw [hnone, decide_eq_false hne]
    rfl

/-- A name whose queue was handed over has a handle, and nothing waits for it. -/
theorem Inv.handled (h₀ : h.Inv) (hl : h.processed name ++ l = h.sent name)
    (hown : h'.remote_fd h.id = none)
    (hh : ({ h with map := Function.update h.map name ⟨handle, none⟩ } :
      HarborState ν μ).Handled h' name (harborOf handle) l) : h'.Inv := by
  obtain ⟨es, hlog, hmsg, hes⟩ := hh.log
  have hmap : h'.map = Function.update h.map name ⟨handle, none⟩ := hh.map
  have hprocessed : ∀ n, h'.processed n =
      h.processed n ++ if n = name then es.map Entry.msg else [] :=
    processed_append hlog fun e he => (hes e he).1
  refine ⟨⟨?_, ?_, ?_⟩, hh.table h₀.table, ?_, ?_⟩
  · intro n
    rw [hprocessed n, hmap, show h'.sent = h.sent from hh.sent]
    by_cases hn : n = name
    · subst hn
      rw [Function.update_self, if_pos rfl, hmsg, hl]
      exact ⟨[], rfl, List.append_nil _⟩
    · rw [Function.update_of_ne hn, if_neg hn, List.append_nil]
      exact h₀.sound.once n
  · intro n
    rw [hmap]
    by_cases hn : n = name
    · subst hn
      rw [Function.update_self]
      exact fun _ => rfl
    · rw [Function.update_of_ne hn]
      exact h₀.sound.resolved n
  · intro e he
    rw [hlog] at he
    obtain he | he := List.mem_append.mp he
    · exact h₀.sound.fates e he
    · exact (hes e he).2
  · rw [show h'.id = h.id from hh.id]
    exact hown
  · intro n ln
    rw [hmap]
    by_cases hn : n = name
    · subst hn
      rw [Function.update_self]
      intro hsome
      cases hsome
    · rw [Function.update_of_ne hn]
      exact h₀.nonempty n ln

theorem Inv.update_remote_name (h₀ : h.Inv) (hc : h.CarefulName name handle attempts)
    (hx : h.update_remote_name name handle attempts = some h') : h'.Inv := by
  obtain ⟨l, hwait, honce⟩ := h₀.sound.once name
  unfold HarborState.update_remote_name at hx
  unfold Waiting at hwait
  cases hqueue : (h.map name).queue with
  | none =>
    rw [hqueue] at hx hwait
    obtain rfl := Option.some.inj hx
    obtain rfl : l = [] := hwait
    exact h₀.handled honce h₀.own (Handled.refl _ name _)
  | some queue =>
    rw [hqueue] at hx hwait
    obtain ⟨⟨h₁, queue₁⟩, hd, rfl⟩ := Option.map_eq_some_iff.mp hx
    obtain ⟨hne, hkeeps⟩ := hc (by rw [hqueue]; rfl)
    have hqueue : queue.Represents l := hwait
    unfold dispatch_queue at hd
    split at hd
    · cases hd
    have hown : ∀ h' : HarborState ν μ, (∀ i, i ≠ harborOf handle → h'.remote_fd i = h.remote_fd i) →
        h'.remote_fd h.id = none := fun h' hothers => (hothers h.id hne.symm).trans h₀.own
    cases hfd : h.remote_fd (harborOf handle) with
    | none =>
      simp only [hfd] at hd
      cases hd
      have hrelease := hqueue.release hqueue.room.le
      rw [hrelease]
      exact h₀.handled honce (hown _ fun _ _ => rfl) (Handled.release (.inr ⟨hne, hfd⟩))
    | some fd =>
      simp only [hfd] at hd
      obtain ⟨done, rest, rfl, hq', hhandled, hend⟩ := dispatch_loop_careful
        (h := { h with map := Function.update h.map name ⟨handle, none⟩ }) hqueue h₀.table hfd
        (hkeeps (by rw [hfd]; rfl)) hd
      have hrelease := hq'.release hq'.room.le
      rw [hrelease]
      refine h₀.handled honce (hown _ hhandled.others) (hhandled.trans (Handled.release ?_))
      obtain hnil | hnone := hend
      · exact .inl hnil
      · refine .inr ⟨?_, hnone⟩
        rw [hhandled.id]
        exact hne

omit [DecidableEq ν] in
/-- What a send to a handle leaves alone. -/
theorem remote_send_handle_frame {fate : Fate}
    (hx : h.remote_send_handle handle attempt = some (h', fate)) :
    h'.id = h.id ∧ h'.map = h.map ∧ h'.sent = h.sent ∧ h'.log = h.log ∧
      (h.table.Sound → h'.table.Sound) ∧ (h.remote_fd h.id = none → h'.remote_fd h.id = none) := by
  unfold remote_send_handle at hx
  split at hx
  · cases hx
  split at hx
  · cases hx
    exact ⟨rfl, rfl, rfl, rfl, fun ht => ht, fun hown => hown⟩
  rename_i hne
  split at hx
  · rename_i fd hfd
    split at hx
    · obtain ⟨h₁, hre, heq⟩ := Option.map_eq_some_iff.mp hx
      cases heq
      obtain ⟨hid, hmap, hsent, hlog, -, hothers⟩ := reconnect_frame hre
      refine ⟨hid, hmap, hsent, hlog, fun ht => reconnect_table ht hfd hre, ?_⟩
      rw [hothers h.id (Ne.symm hne)]
      exact fun hown => hown
    · split at hx
      · cases hx
      · cases hx
        exact ⟨rfl, rfl, rfl, rfl, fun ht => ht, fun hown => hown⟩
  · cases hx
    exact ⟨rfl, rfl, rfl, rfl, fun ht => ht, fun hown => hown⟩

omit [DecidableEq ν] in
/-- A send to a handle does right by its message just when it is a careful one. -/
theorem remote_send_handle_right {fate : Fate} (ht : h.table.Sound)
    (hx : h.remote_send_handle handle attempt = some (h', fate)) :
    fate.Right ↔ h.CarefulSend handle attempt := by
  unfold remote_send_handle at hx
  unfold CarefulSend
  split at hx
  · cases hx
  split at hx
  · rename_i hself
    cases hx
    exact iff_of_true trivial (.inl hself)
  rename_i hne
  split at hx
  · rename_i fd hfd
    rw [hfd]
    split at hx
    · rename_i herr
      obtain ⟨h₁, hre, heq⟩ := Option.map_eq_some_iff.mp hx
      cases heq
      have hsome := (reconnect_frame hre).2.2.2.2.1
      show (h'.remote_fd (harborOf handle)).isSome = false ↔ _
      rw [hsome, herr]
      simp [hne]
    · rename_i hok
      split at hx
      · cases hx
      · cases hx
        refine iff_of_true (live_of_table ht hfd) (.inr (.inr ?_))
        simpa using hok
  · rename_i hfd
    cases hx
    rw [hfd]
    show (_ && _) = false ↔ _
    cases attempt.connect <;> cases h.remote_addr (harborOf handle) <;> simp [hne]

theorem Inv.remote_send_name (h₀ : h.Inv)
    (hc : (h.map name).value ≠ 0 → h.CarefulSend (h.map name).value attempt)
    (hx : h.remote_send_name name m attempt = some h') : h'.Inv := by
  obtain ⟨l, hwait, honce⟩ := h₀.sound.once name
  unfold HarborState.remote_send_name at hx
  dsimp only at hx
  split at hx
  · -- the message waits behind the others
    rename_i hvalue
    obtain rfl := Option.some.inj hx
    have hqueue : ((h.map name).queue.getD MsgQueue.new_queue).Represents l := by
      unfold Waiting at hwait
      cases hq : (h.map name).queue with
      | none =>
        rw [hq] at hwait
        obtain rfl : l = [] := hwait
        exact MsgQueue.new_queue_represents
      | some queue =>
        rw [hq] at hwait
        exact hwait
    have hpush := hqueue.push (m := m)
    refine ⟨⟨?_, ?_, h₀.sound.fates⟩, h₀.table, h₀.own, ?_⟩
    · intro n
      by_cases hn : n = name
      · subst hn
        refine ⟨l ++ [m], ?_, ?_⟩
        · simp only [Function.update_self, Waiting]
          exact hpush
        · simp only [Function.update_self]
          rw [← List.append_assoc]
          exact congrArg (· ++ [m]) honce
      · simp only [Function.update_of_ne hn]
        exact h₀.sound.once n
    · intro n
      by_cases hn : n = name
      · subst hn
        simp only [Function.update_self]
        exact fun hne => absurd hvalue hne
      · simp only [Function.update_of_ne hn]
        exact h₀.sound.resolved n
    · intro n ln
      by_cases hn : n = name
      · subst hn
        simp only [Function.update_self, Waiting]
        rintro - hln rfl
        have hnone := hln.pop_nil
        cases hl : l ++ [m] with
        | nil => simp at hl
        | cons m' l' =>
          rw [hl] at hpush
          obtain ⟨queue', hpop, -⟩ := hpush.pop
          rw [hnone] at hpop
          cases hpop
      · simp only [Function.update_of_ne hn]
        exact h₀.nonempty n ln
  · -- the name has a handle
    rename_i hvalue
    obtain ⟨⟨h₁, fate⟩, hsend, rfl⟩ := Option.map_eq_some_iff.mp hx
    obtain ⟨hid, hmap, hsent, hlog, htable, hown⟩ := remote_send_handle_frame hsend
    -- a careful send has a connection, or is the one that opens it
    have hright : fate.Right := (remote_send_handle_right
      (h := { h with sent := Function.update h.sent name (h.sent name ++ [m]) })
      h₀.table hsend).mpr (hc hvalue)
    have hprocessed : ∀ n, (h₁.note name m fate).processed n =
        h.processed n ++ if n = name then [m] else [] := by
      have hnote : (h₁.note name m fate).log = h.log ++ [⟨name, m, fate⟩] := congrArg (· ++ _) hlog
      refine processed_append hnote ?_
      intro e he
      obtain rfl := List.mem_singleton.mp he
      rfl
    unfold Waiting at hwait
    rw [h₀.sound.resolved name hvalue] at hwait
    obtain rfl : l = [] := hwait
    refine ⟨⟨?_, ?_, ?_⟩, htable h₀.table, ?_, ?_⟩
    · intro n
      rw [hprocessed n]
      show ∃ ln, Waiting (h₁.map n) ln ∧ _ = h₁.sent n
      rw [hmap, hsent]
      obtain ⟨ln, hwait, hn'⟩ := h₀.sound.once n
      refine ⟨ln, hwait, ?_⟩
      by_cases hn : n = name
      · subst hn
        unfold Waiting at hwait
        rw [h₀.sound.resolved n hvalue] at hwait
        obtain rfl : ln = [] := hwait
        show _ = Function.update h.sent n (h.sent n ++ [m]) n
        rw [Function.update_self, if_pos rfl, List.append_nil, ← hn', List.append_nil]
      · simp only [Function.update_of_ne hn]
        rw [if_neg hn, List.append_nil]
        exact hn'
    · intro n
      show (h₁.map n).value ≠ 0 → _
      rw [show (h₁.note name m fate).map = h.map from hmap, hmap]
      exact h₀.sound.resolved n
    · intro e he
      obtain he | he := List.mem_append.mp he
      · exact h₀.sound.fates e (hlog ▸ he)
      · obtain rfl := List.mem_singleton.mp he
        exact hright
    · show h₁.remote_fd h₁.id = none
      rw [hid]
      exact hown h₀.own
    · intro n ln
      show (h₁.map n).queue.isSome → Waiting (h₁.map n) ln → _
      rw [hmap]
      exact h₀.nonempty n ln

/-- A step of other functions of the harbor, or of other parts of the process. -/
theorem Inv.aside (h₀ : h.Inv) (hid : h'.id = h.id) (hmap : h'.map = h.map) (hsent : h'.sent = h.sent)
    (hlog : h'.log = h.log) (htable : h'.table.Sound) (hown : h'.remote_fd h.id = none) :
    h'.Inv := by
  refine ⟨⟨?_, ?_, ?_⟩, htable, hid ▸ hown, ?_⟩
  · intro n
    unfold processed
    rw [hmap, hsent, hlog]
    exact h₀.sound.once n
  · rw [hmap]
    exact h₀.sound.resolved
  · rw [hlog]
    exact h₀.sound.fates
  · rw [hmap]
    exact h₀.nonempty

theorem Inv.update_remote_address (h₀ : h.Inv) {ipaddr : Addr}
    (hx : h.update_remote_address harbor_id ipaddr connect = some h') : h'.Inv := by
  unfold HarborState.update_remote_address at hx
  split at hx
  · cases hx
    exact h₀
  rename_i hne
  split at hx
  on_goal 2 => cases hx
  have hown : ∀ r, Function.update h.remote_fd harbor_id r h.id = none := by
    intro r
    rw [Function.update_of_ne (Ne.symm hne)]
    exact h₀.own
  obtain ⟨h₁, hc, rfl⟩ := Option.map_eq_some_iff.mp hx
  cases hfd : h.remote_fd harbor_id with
  | none =>
    simp only [hfd] at hc
    have hsame : Function.update h.remote_fd harbor_id none = h.remote_fd :=
      Function.update_eq_self_iff.mpr hfd.symm
    cases connect with
    | none =>
      obtain rfl := Option.some.inj hc
      simp only [Function.update_self, Option.isSome_none, Bool.false_eq_true, if_false]
      refine h₀.aside rfl rfl rfl rfl ?_ (hown _)
      unfold HarborState.table
      rw [hsame]
      exact h₀.table
    | some fd =>
      obtain ⟨⟨-, hfree⟩, hst⟩ := Option.ite_none_right_eq_some.mp hc
      obtain rfl := Option.some.inj hst
      simp only [Function.update_self, Option.isSome_some, if_true]
      refine h₀.aside rfl rfl rfl rfl ?_ (hown _)
      exact Master.Sound.record (m := h.table) h₀.table hfree
  | some fd =>
    simp only [hfd] at hc
    have hdrop := Master.Sound.drop (m := h.table) h₀.table hfd
    cases connect with
    | none =>
      obtain rfl := Option.some.inj hc
      simp only [Function.update_self, Option.isSome_none, Bool.false_eq_true, if_false]
      refine h₀.aside rfl rfl rfl rfl ⟨?_, hdrop.inj⟩ (hown _)
      intro i fd' hi
      obtain ⟨-, hnone⟩ | ⟨hi', -⟩ := Master.of_update hi
      · cases hnone
      · obtain ⟨addr, haddr, hk⟩ := hdrop.connected i fd' hi
        exact ⟨addr, (Function.update_of_ne hi' _ _).trans haddr, hk⟩
    | some fd' =>
      obtain ⟨⟨-, hfree⟩, hst⟩ := Option.ite_none_right_eq_some.mp hc
      obtain rfl := Option.some.inj hst
      simp only [Function.update_self, Option.isSome_some, if_true]
      refine h₀.aside rfl rfl rfl rfl ?_ (hown _)
      have hrecord : ({ h.table with
          remote_fd :=
            Function.update (Function.update h.remote_fd harbor_id none) harbor_id (some fd')
          remote_addr := Function.update h.remote_addr harbor_id (some ipaddr)
          kernel := Function.update (h.close fd).kernel fd' (some (.harbor ipaddr)) } :
            Master).Sound := hdrop.record hfree
      rw [Function.update_idem] at hrecord
      unfold HarborState.table
      simp only [Function.update_idem]
      exact hrecord

omit [DecidableEq ν] in
theorem opened_table (ht : h.table.Sound) (hfree : h.kernel fd = none) :
    ({ h with kernel := Function.update h.kernel fd (some .other) } :
      HarborState ν μ).table.Sound := by
  refine Master.Sound.kernel (m := h.table) ht ?_
  intro fd' addr hk
  have hk : h.kernel fd' = some (.harbor addr) := hk
  have hne : fd' ≠ fd := by
    rintro rfl
    rw [hfree] at hk
    cases hk
  exact (Function.update_of_ne hne _ _).trans hk

omit [DecidableEq ν] in
theorem closed_table (ht : h.table.Sound) (hother : h.kernel fd = some .other) :
    (h.close fd).table.Sound := by
  refine Master.Sound.kernel (m := h.table) ht ?_
  intro fd' addr hk
  have hk : h.kernel fd' = some (.harbor addr) := hk
  have hne : fd' ≠ fd := by
    rintro rfl
    rw [hother] at hk
    cases hk
  exact (Function.update_of_ne hne _ _).trans hk

theorem Inv.exec {e : HarborEv ν μ} (h₀ : h.Inv) (hc : h.Careful e) (hx : h.exec e = some h') :
    h'.Inv := by
  cases e with
  | send_name name msg attempt => exact h₀.remote_send_name hc hx
  | send_handle destination attempt =>
    obtain ⟨⟨h₁, fate⟩, hsend, rfl⟩ := Option.map_eq_some_iff.mp hx
    obtain ⟨hid, hmap, hsent, hlog, htable, hown⟩ := remote_send_handle_frame hsend
    exact h₀.aside hid hmap hsent hlog (htable h₀.table) (hown h₀.own)
  | register_name name handle attempts =>
    unfold HarborState.exec at hx
    dsimp only at hx
    split at hx
    · cases hx
      exact h₀
    · rename_i hne
      exact h₀.update_remote_name (hc hne) hx
  | update_name name handle attempts =>
    exact h₀.update_remote_name hc (Option.ite_none_left_eq_some.mp hx).2
  | update_address harbor_id ipaddr connect => exact h₀.update_remote_address hx
  | opened fd =>
    obtain ⟨hfree, hst⟩ := Option.ite_none_right_eq_some.mp hx
    obtain rfl := Option.some.inj hst
    exact h₀.aside rfl rfl rfl rfl (opened_table h₀.table hfree) h₀.own
  | closed fd =>
    obtain ⟨hother, hst⟩ := Option.ite_none_right_eq_some.mp hx
    obtain rfl := Option.some.inj hst
    exact h₀.aside rfl rfl rfl rfl (closed_table h₀.table hother) h₀.own

theorem create_inv (id : ℕ) (kernel : ℕ → Option Peer) :
    (create id kernel : HarborState ν μ).Inv where
  sound := by
    refine ⟨fun name => ⟨[], rfl, rfl⟩, fun name _ => rfl, ?_⟩
    intro e he
    cases he
  table := Master.create_sound kernel
  own := rfl
  nonempty := by
    intro name l hsome
    cases hsome

theorem reachable_inv (hr : ((system : TSys (HarborState ν μ) _).restrict Careful).Reachable h) :
    h.Inv := by
  induction hr with
  | init h₀ =>
    obtain ⟨id, kernel, -, rfl⟩ := h₀
    exact create_inv id kernel
  | step _ hstep ih => exact ih.exec hstep.1 hstep.2

/-! ## The other steps lose a message -/

theorem update_remote_name_loses (h₀ : h.Inv) (hc : ¬h.CarefulName name handle attempts)
    (hx : h.update_remote_name name handle attempts = some h') : ∃ e ∈ h'.log, ¬e.fate.Right := by
  unfold CarefulName at hc
  push Not at hc
  obtain ⟨hsome, hc⟩ := hc
  obtain ⟨l, hwait, -⟩ := h₀.sound.once name
  have hnonempty := h₀.nonempty name l hsome hwait
  obtain ⟨queue, hqueue⟩ := Option.isSome_iff_exists.mp hsome
  unfold Waiting at hwait
  rw [hqueue] at hwait
  have hrep : queue.Represents l := hwait
  unfold HarborState.update_remote_name at hx
  rw [hqueue] at hx
  obtain ⟨⟨h₁, queue₁⟩, hd, rfl⟩ := Option.map_eq_some_iff.mp hx
  unfold dispatch_queue at hd
  split at hd
  · cases hd
  by_cases hself : harborOf handle = h.id
  · -- the node itself has no connection, and the queue is dropped
    have hfd : h.remote_fd (harborOf handle) = none := hself ▸ h₀.own
    simp only [hfd] at hd
    cases hd
    obtain ⟨m, hm⟩ := List.exists_mem_of_ne_nil l hnonempty
    refine ⟨⟨name, m, .dropped true⟩, ?_, Bool.noConfusion⟩
    refine List.mem_append_right _ ?_
    rw [hrep.release hrep.room.le]
    simp [hself, hm]
  · obtain ⟨hfd, a, ha, hbad⟩ := hc hself
    obtain ⟨fd, hfd⟩ := Option.isSome_iff_exists.mp hfd
    simp only [hfd] at hd
    obtain ⟨e, he, hwrong⟩ := dispatch_loop_loses ⟨a, ha, hbad⟩ hd
    exact ⟨e, List.mem_append_left _ he, hwrong⟩

theorem exec_loses {e : HarborEv ν μ} (h₀ : h.Inv) (hc : ¬h.Careful e) (hx : h.exec e = some h') :
    ¬h'.Sound := by
  suffices ∃ e ∈ h'.log, ¬e.fate.Right by
    obtain ⟨e, he, hwrong⟩ := this
    exact fun hs => hwrong (hs.fates e he)
  cases e with
  | send_name name msg attempt =>
    unfold Careful at hc
    push Not at hc
    obtain ⟨hvalue, hc⟩ := hc
    unfold HarborState.exec HarborState.remote_send_name at hx
    dsimp only at hx
    rw [if_neg hvalue] at hx
    obtain ⟨⟨h₁, fate⟩, hsend, rfl⟩ := Option.map_eq_some_iff.mp hx
    have hright := remote_send_handle_right
      (h := { h with sent := Function.update h.sent name (h.sent name ++ [msg]) }) h₀.table hsend
    exact ⟨⟨name, msg, fate⟩, List.mem_append_right _ List.mem_cons_self, fun hf => hc (hright.mp hf)⟩
  | register_name name handle attempts =>
    unfold Careful at hc
    push Not at hc
    obtain ⟨hne, hc⟩ := hc
    unfold HarborState.exec at hx
    dsimp only at hx
    rw [if_neg hne] at hx
    exact update_remote_name_loses h₀ hc hx
  | update_name name handle attempts =>
    exact update_remote_name_loses h₀ hc (Option.ite_none_left_eq_some.mp hx).2
  | send_handle | update_address | opened | closed => exact absurd trivial hc

/-- After a run of careful steps nothing is lost, and the next step loses nothing just when it is
careful too. -/
theorem delivered_iff_careful
    (hr : ((system : TSys (HarborState ν μ) _).restrict Careful).Reachable h) :
    h.Sound ∧ ∀ (e : HarborEv ν μ) (h' : HarborState ν μ), system.step h e h' →
      (h'.Sound ↔ h.Careful e) := by
  have h₀ := reachable_inv hr
  refine ⟨h₀.sound, fun e h' hx => ⟨fun hs => ?_, fun hc => (h₀.exec hc hx).sound⟩⟩
  by_contra hc
  exact exec_loses h₀ hc hx hs

/-- Two messages wait for a name of harbor 2, a third follows when it is known. -/
theorem delivered_iff_careful_waiting :
    ∃ h : HarborState ℕ ℕ, (system.restrict Careful).Reachable h ∧
      h.log = [⟨7, 1, .written true⟩, ⟨7, 2, .written true⟩, ⟨7, 3, .written true⟩] ∧ h.Sound := by
  obtain ⟨h, hr, hlog⟩ := TSys.reachable_of_exec
    (p := fun h => decide (h.log =
      [⟨7, 1, .written true⟩, ⟨7, 2, .written true⟩, ⟨7, 3, .written true⟩]))
    (TSys.restrictExec_step (T := system) (C := Careful)
      fun h e h' (hx : h.exec e = some h') => hx)
    (s := (create 1 fun _ => none : HarborState ℕ ℕ)) ⟨1, _, fun _ => .inl rfl, rfl⟩
    (l := [.update_address 2 [':'] (some 5), .send_name 7 1 ⟨false, none⟩,
      .send_name 7 2 ⟨false, none⟩, .update_name 7 0x02000005 [⟨false, none⟩, ⟨false, none⟩],
      .send_name 7 3 ⟨false, none⟩])
    (by decide)
  exact ⟨h, hr, of_decide_eq_true hlog, (delivered_iff_careful hr).1⟩

/-- A name that turns out to be of the node itself: the message that waits for it is dropped. -/
theorem local_name_loses :
    ¬∀ h : HarborState ℕ ℕ, system.Reachable h → h.Sound := by
  intro hall
  obtain ⟨h, hr, hlog⟩ := TSys.reachable_of_exec (T := system)
    (fun h e h' (hx : h.exec e = some h') => hx)
    (s := (create 1 fun _ => none : HarborState ℕ ℕ)) ⟨1, _, fun _ => .inl rfl, rfl⟩
    (l := [.send_name 7 1 ⟨false, none⟩, .update_name 7 0x01000005 []])
    (p := fun h => decide (h.log = [⟨7, 1, .dropped true⟩])) (by decide)
  have hmem : (⟨7, 1, .dropped true⟩ : Entry ℕ ℕ) ∈ h.log := by
    rw [of_decide_eq_true hlog]
    exact List.mem_cons_self
  exact Bool.noConfusion ((hall h hr).fates _ hmem)

end HarborState

end DnServer.Harbor.Names
