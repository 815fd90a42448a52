import DnServer.Lib.Service

/-!
# A service that writes behind

A service answers from memory and writes to a store later: its handlers change a value in
memory, collect what the store does not know yet, and send it off now and then; the store
takes what it is sent one after another, and others write to it too. `Books` says what of
all this counts: `settled` is the value in memory less what has not been sent, `posted` what
a message adds, `kept` what the store has. `Accounts` follows a handler's text with what it
owes, what it has written less what it has sent; it may owe nothing where it waits or ends.
Then `gap`, what the memory has beyond the store and the messages under way, moves only
with the steps that have a `deed`.
-/

namespace DnServer.Lib

/-- What is counted of a state, of a message and of the store, and how the store changes. -/
structure Books (σ μ δ χ V : Type) where
  settled : σ → V
  posted : μ → V
  kept : δ → V
  /-- The store takes a message. -/
  apply : δ → μ → δ
  /-- Somebody else writes to the store. -/
  enter : δ → χ → δ

variable {σ μ ι M δ χ V : Type} {ρ : ι → Type} {α β : Type} [AddCommGroup V]

/-- What a list of messages adds. -/
def Books.total (B : Books σ μ δ χ V) (mail : List μ) : V := (mail.map B.posted).sum

namespace Co

variable (B : Books σ μ δ χ V)

/-- No write moves the value, and no message counts. -/
def Rules.quiet (B : Books σ μ δ χ V) : Rules σ μ ι :=
  ⟨fun s t => B.settled t = B.settled s, fun m => B.posted m = 0, fun _ => True⟩

/-- What the handler owes at its end is `Q`'s to say; where it waits it owes nothing. -/
def Accounts (B : Books σ μ δ χ V) : Co σ μ ι ρ α → (α → V → σ → Prop) → V → σ → Prop
  | .done a, Q, d, s => Q a d s
  | .raised, _, d, _ => d = 0
  | .exited, _, d, _ => d = 0
  | .get k, Q, d, s => (k s).Accounts B Q d s
  | .put u k, Q, d, s => k.Accounts B Q (d + (B.settled u - B.settled s)) u
  | .send m k, Q, d, s => k.Accounts B Q (d - B.posted m) s
  | .call _ k, Q, d, _ => d = 0 ∧ ∀ r u, (k r).Accounts B Q 0 u
  | .block _ k, Q, d, s => d = 0 ∧ ∀ r, (k r).Accounts B Q 0 s

section Rules

variable {B} {Q Q' : α → V → σ → Prop} {P : α → σ → Prop} {d : V} {s : σ}

@[simp] theorem quiet_write {s t : σ} :
    (Rules.quiet B : Rules σ μ ι).write s t ↔ B.settled t = B.settled s := Iff.rfl

@[simp] theorem quiet_send (m : μ) : (Rules.quiet B : Rules σ μ ι).send m ↔ B.posted m = 0 := Iff.rfl

@[simp] theorem quiet_ask (i : ι) : (Rules.quiet B : Rules σ μ ι).ask i ↔ True := Iff.rfl

theorem accounts_bind (c : Co σ μ ι ρ α) (f : α → Co σ μ ι ρ β) (Q : β → V → σ → Prop) (d : V)
    (s : σ) : (c >>= f).Accounts B Q d s ↔
      c.Accounts B (fun a d t => (f a).Accounts B Q d t) d s := by
  show (c.bind f).Accounts B Q d s ↔ _
  induction c generalizing d s with
  | done a => exact Iff.rfl
  | raised => exact Iff.rfl
  | exited => exact Iff.rfl
  | get k ih => exact ih s d s
  | put u k ih => exact ih _ u
  | send m k ih => exact ih _ s
  | call i k ih =>
    exact and_congr_right fun _ => forall_congr' fun r => forall_congr' fun u => ih r 0 u
  | block i k ih => exact and_congr_right fun _ => forall_congr' fun r => ih r 0 s

theorem Accounts.mono {c : Co σ μ ι ρ α} (hQ : ∀ a d t, Q a d t → Q' a d t)
    (h : c.Accounts B Q d s) : c.Accounts B Q' d s := by
  induction c generalizing d s with
  | done a => exact hQ a d s h
  | raised => exact h
  | exited => exact h
  | get k ih => exact ih s h
  | put u k ih => exact ih h
  | send m k ih => exact ih h
  | call i k ih => exact ⟨h.1, fun r u => ih r (h.2 r u)⟩
  | block i k ih => exact ⟨h.1, fun r => ih r (h.2 r)⟩

/-- Who moves nothing owes nothing. -/
theorem Within.accounts {c : Co σ μ ι ρ α} (h : c.Within (.quiet B) P s) :
    c.Accounts B (fun a d t => d = 0 ∧ P a t) 0 s := by
  induction c generalizing s with
  | done a => exact ⟨rfl, h⟩
  | raised => rfl
  | exited => rfl
  | get k ih => exact ih s h
  | put u k ih =>
    show k.Accounts B _ (0 + (B.settled u - B.settled s)) u
    rw [quiet_write.mp h.1, sub_self, add_zero]
    exact ih h.2
  | send m k ih =>
    show k.Accounts B _ (0 - B.posted m) s
    rw [(quiet_send m).mp h.1, sub_zero]
    exact ih h.2
  | call i k ih => exact ⟨rfl, fun r u => ih r (h.2 r u)⟩
  | block i k ih => exact ⟨rfl, fun r => ih r (h.2 r)⟩

end Rules

/-! ## Handlers that balance -/

/-- Whatever the handler moves it has sent by its end. -/
def Balanced (c : Co σ μ ι ρ α) : Prop := ∀ s, c.Accounts B (fun _ d _ => d = 0) 0 s

section Balanced

variable {B} {c : Co σ μ ι ρ α} {f : α → Co σ μ ι ρ β}

theorem Balanced.of_quiet (h : ∀ s, c.Within (.quiet B) (fun _ _ => True) s) : c.Balanced B :=
  fun s => (h s).accounts.mono fun _ _ _ hd => hd.1

theorem Balanced.bind (hc : c.Balanced B) (hf : ∀ a, (f a).Balanced B) : (c >>= f).Balanced B := by
  intro s
  rw [accounts_bind]
  refine (hc s).mono ?_
  rintro a d t rfl
  exact hf a t

theorem Balanced.ite {p : Prop} [Decidable p] {c e : Co σ μ ι ρ α} (hc : p → c.Balanced B)
    (he : ¬p → e.Balanced B) : (if p then c else e).Balanced B := by
  by_cases hp : p
  · rw [if_pos hp]
    exact hc hp
  · rw [if_neg hp]
    exact he hp

theorem Balanced.pure (a : α) : (Pure.pure a : Co σ μ ι ρ α).Balanced B := fun _ => rfl

/-- A handler that looks at the state first. -/
theorem Balanced.read {f : σ → Co σ μ ι ρ β} (hf : ∀ s, (f s).Balanced B) :
    (Co.read >>= f).Balanced B := fun s => hf s s

end Balanced

/-! ## Up to the next call -/

/-- What is left of the handler at a stop in `t` balances. -/
def Stop.Accounts (B : Books σ μ δ χ V) (Q : α → V → σ → Prop) : Stop σ μ ι ρ α → σ → Prop
  | .call _ k, _ => ∀ r u, (k r).Accounts B Q 0 u
  | .block _ k, t => ∀ r, (k r).Accounts B Q 0 t
  | _, _ => True

section Advance

variable {B} {Q : α → V → σ → Prop}

/-- Up to its next call the handler has paid what it owed, and the rest balances. -/
theorem Accounts.advance (hQ : ∀ a d t, Q a d t → d = 0) {c : Co σ μ ι ρ α} {d : V} {s : σ}
    (h : c.Accounts B Q d s) :
    d + B.settled (c.advance s).2 = B.settled s + B.total (c.sends s) ∧
      (c.advance s).1.Accounts B Q (c.advance s).2 := by
  induction c generalizing d s with
  | done a => exact ⟨by simp [Co.advance, Co.sends, Books.total, hQ a d s h], trivial⟩
  | raised => exact ⟨by simp [Co.advance, Co.sends, Books.total, show d = 0 from h], trivial⟩
  | exited => exact ⟨by simp [Co.advance, Co.sends, Books.total, show d = 0 from h], trivial⟩
  | get k ih => exact ih s h
  | put u k ih =>
    obtain ⟨hpaid, hrest⟩ := ih h
    refine ⟨?_, hrest⟩
    show d + B.settled (k.advance u).2 = B.settled s + B.total (k.sends u)
    have hdebt : d + (B.settled u - B.settled s) + B.settled (k.advance u).2 -
        (B.settled u - B.settled s) = B.settled u + B.total (k.sends u) -
        (B.settled u - B.settled s) := by rw [hpaid]
    have hleft : d + (B.settled u - B.settled s) + B.settled (k.advance u).2 -
        (B.settled u - B.settled s) = d + B.settled (k.advance u).2 := by abel
    rw [← hleft, hdebt]
    abel
  | send m k ih =>
    obtain ⟨hpaid, hrest⟩ := ih h
    refine ⟨?_, hrest⟩
    show d + B.settled (k.advance s).2 = B.settled s + B.total (m :: k.sends s)
    have hcons : B.total (m :: k.sends s) = B.posted m + B.total (k.sends s) := by
      simp [Books.total]
    rw [hcons, add_left_comm, ← hpaid]
    abel
  | call i k => exact ⟨by simp [Co.advance, Co.sends, Books.total, h.1], h.2⟩
  | block i k => exact ⟨by simp [Co.advance, Co.sends, Books.total, h.1], h.2⟩

end Advance

end Co

/-! ## The service with its store -/

/-- A service, what it has sent that is still under way, and the store. -/
structure WriteBehind (σ μ ι δ : Type) (ρ : ι → Type) where
  service : Service σ μ ι ρ
  mail : List μ
  store : δ

namespace WriteBehind

variable (B : Books σ μ δ χ V)

/-- A handler goes on up to its end or its next call. -/
def run (W : WriteBehind σ μ ι δ ρ) (c : Co σ μ ι ρ Unit) : WriteBehind σ μ ι δ ρ :=
  { W with service := W.service.run c, mail := W.mail ++ c.sends W.service.state }

inductive Event (M χ : Type)
  | start (m : M)
  /-- A waiting handler has its answer. -/
  | resume
  /-- The handler that holds the service up has its answer. -/
  | answer
  /-- Something outside the handlers at hand changes the state. -/
  | other
  /-- The store takes the next message. -/
  | deliver
  /-- Somebody else writes to the store. -/
  | enter (x : χ)

/-- One step. -/
inductive Step (handle : M → Co σ μ ι ρ Unit) (others : σ → σ → Prop) :
    WriteBehind σ μ ι δ ρ → Event M χ → WriteBehind σ μ ι δ ρ → Prop
  | start {W} (m : M) : W.service.Free → Step handle others W (.start m) (W.run (handle m))
  | resume {W : WriteBehind σ μ ι δ ρ} {pre post i k} (r : ρ i) : W.service.Free →
      W.service.waiting = pre ++ ⟨i, k⟩ :: post →
      Step handle others W .resume
        ({ W with service := { W.service with waiting := pre ++ post } }.run (k r))
  | answer {W : WriteBehind σ μ ι δ ρ} {i k} (r : ρ i) : W.service.holding = some ⟨i, k⟩ →
      Step handle others W .answer
        ({ W with service := { W.service with holding := none } }.run (k r))
  | other {W : WriteBehind σ μ ι δ ρ} {t : σ} : W.service.Free → others W.service.state t →
      Step handle others W .other { W with service := { W.service with state := t } }
  | deliver {W : WriteBehind σ μ ι δ ρ} {m rest} : W.mail = m :: rest →
      Step handle others W .deliver { W with mail := rest, store := B.apply W.store m }
  | enter {W : WriteBehind σ μ ι δ ρ} (x : χ) :
      Step handle others W (.enter x) { W with store := B.enter W.store x }

def system (handle : M → Co σ μ ι ρ Unit) (others : σ → σ → Prop)
    (init : WriteBehind σ μ ι δ ρ → Prop) : TSys (WriteBehind σ μ ι δ ρ) (Event M χ) where
  init := init
  step := Step B handle others

/-- What the memory has beyond the store and the messages under way. -/
def gap (W : WriteBehind σ μ ι δ ρ) : V :=
  B.settled W.service.state - (B.kept W.store + B.total W.mail)

/-- What a step adds to the gap; `amount` is what the start of a handler does. -/
def deed (amount : M → σ → V) (W : WriteBehind σ μ ι δ ρ) : Event M χ → V
  | .start m => amount m W.service.state
  | .deliver =>
    match W.mail with
    | [] => 0
    | m :: _ => B.posted m - (B.kept (B.apply W.store m) - B.kept W.store)
  | .enter x => -(B.kept (B.enter W.store x) - B.kept W.store)
  | _ => 0

/-- The handlers that wait balance. -/
structure Sound (W : WriteBehind σ μ ι δ ρ) : Prop where
  waiting : ∀ c ∈ W.service.waiting, ∀ r, (c.2 r).Balanced B
  holding : ∀ c, W.service.holding = some c → ∀ r,
    (c.2 r).Accounts B (fun _ d _ => d = 0) 0 W.service.state

section Runs

variable {B} {W W' : WriteBehind σ μ ι δ ρ} {handle : M → Co σ μ ι ρ Unit} {others : σ → σ → Prop}
  {init : WriteBehind σ μ ι δ ρ → Prop} {amount : M → σ → V} {e : Event M χ}

theorem gap_run {c : Co σ μ ι ρ Unit} {d : V}
    (hc : c.Accounts B (fun _ d _ => d = 0) d W.service.state) :
    gap B (W.run c) = gap B W - d := by
  have hpaid := (hc.advance fun _ _ _ hd => hd).1
  have hstate : (W.run c).service.state = (c.advance W.service.state).2 :=
    W.service.run_state c
  have hmail : B.total (W.run c).mail = B.total W.mail + B.total (c.sends W.service.state) := by
    simp [WriteBehind.run, Books.total]
  have hsettled : B.settled (c.advance W.service.state).2 =
      B.settled W.service.state + B.total (c.sends W.service.state) - d := by
    rw [← hpaid]
    abel
  show B.settled (W.run c).service.state - (B.kept W.store + B.total (W.run c).mail) = _
  rw [hstate, hmail, hsettled, gap]
  abel

/-- A handler that accounts for what it does goes on. -/
theorem Sound.run (hW : Sound B W) (hfree : W.service.holding = none) {c : Co σ μ ι ρ Unit} {d : V}
    (hc : c.Accounts B (fun _ d _ => d = 0) d W.service.state) : Sound B (W.run c) := by
  have hrest := (hc.advance fun _ _ _ hd => hd).2
  have hnone : ∀ (t : σ) c', W.service.holding = some c' → ∀ r,
      (c'.2 r).Accounts B (fun _ d _ => d = 0) 0 t := by
    intro t c' hc'
    rw [hfree] at hc'
    cases hc'
  have hservice : (W.run c).service = W.service.run c := rfl
  constructor
  · rw [hservice]
    unfold Service.run
    generalize c.advance W.service.state = stop at hrest
    obtain ⟨stop, t⟩ := stop
    cases stop with
    | done a => exact hW.waiting
    | raised => exact hW.waiting
    | exited => exact hW.waiting
    | call i k =>
      intro c' hc'
      rcases List.mem_append.mp hc' with hc' | hc'
      · exact hW.waiting c' hc'
      · rw [List.mem_singleton.mp hc']
        exact hrest
    | block i k => exact hW.waiting
  · rw [hservice]
    unfold Service.run
    generalize c.advance W.service.state = stop at hrest
    obtain ⟨stop, t⟩ := stop
    cases stop with
    | done a => exact hnone t
    | raised => exact hnone t
    | exited => exact hnone t
    | call i k => exact hnone t
    | block i k =>
      intro c' hc'
      obtain rfl := Option.some.inj hc'
      exact hrest

/-- Each step moves the gap by its deed. -/
theorem Sound.step
    (hhandle : ∀ m s, (handle m).Accounts B (fun _ d _ => d = 0) (-(amount m s)) s)
    (hothers : ∀ s t, others s t → B.settled t = B.settled s)
    (hW : Sound B W) (hstep : Step B handle others W e W') :
    Sound B W' ∧ gap B W' = gap B W + deed B amount W e := by
  cases hstep with
  | start m hfree =>
    refine ⟨hW.run hfree.1 (hhandle m _), ?_⟩
    rw [gap_run (hhandle m _), sub_neg_eq_add]
    rfl
  | @resume pre post i k r hfree hwait =>
    have hwaiting := hW.waiting
    rw [hwait] at hwaiting
    have hsub : ∀ c ∈ pre ++ post, c ∈ pre ++ ⟨i, k⟩ :: post := fun c hc =>
      List.mem_append.mpr ((List.mem_append.mp hc).imp_right (List.mem_cons_of_mem _))
    have hk := hwaiting ⟨i, k⟩ (List.mem_append_right _ List.mem_cons_self) r
    have hrest : Sound B { W with service := { W.service with waiting := pre ++ post } } :=
      ⟨fun c hc => hwaiting c (hsub c hc), hW.holding⟩
    refine ⟨hrest.run hfree.1 (hk _), (gap_run (hk _)).trans ?_⟩
    rw [sub_zero]
    exact (add_zero _).symm
  | @answer i k r hhold =>
    have hk := hW.holding ⟨i, k⟩ hhold r
    have hrest : Sound B { W with service := { W.service with holding := none } } :=
      ⟨hW.waiting, fun c hc => nomatch hc⟩
    have hrun := gap_run (W := { W with service := { W.service with holding := none } }) hk
    refine ⟨hrest.run rfl hk, hrun.trans ?_⟩
    rw [sub_zero]
    exact (add_zero _).symm
  | other hfree hot =>
    refine ⟨⟨hW.waiting, fun c hc => ?_⟩, ?_⟩
    · rw [hfree.1] at hc
      cases hc
    · simp [gap, deed, hothers _ _ hot]
  | @deliver m rest hmail =>
    refine ⟨⟨hW.waiting, hW.holding⟩, ?_⟩
    simp only [gap, deed, hmail, Books.total, List.map_cons, List.sum_cons]
    abel
  | enter x =>
    refine ⟨⟨hW.waiting, hW.holding⟩, ?_⟩
    simp only [gap, deed]
    abel

/-- It starts with nothing owed and nothing waiting. -/
def Even (B : Books σ μ δ χ V) (W : WriteBehind σ μ ι δ ρ) : Prop :=
  gap B W = 0 ∧ W.service.waiting = [] ∧ W.service.holding = none

section System

variable (hhandle : ∀ m s, (handle m).Accounts B (fun _ d _ => d = 0) (-(amount m s)) s)
  (hothers : ∀ s t, others s t → B.settled t = B.settled s) (hinit : ∀ W, init W → Even B W)

include hhandle hothers hinit

theorem sound_of_reachable (hW : (system B handle others init).Reachable W) : Sound B W := by
  induction hW with
  | init h0 =>
    obtain ⟨-, hwait, hhold⟩ := hinit _ h0
    refine ⟨fun c hc => ?_, fun c hc => ?_⟩
    · rw [hwait] at hc
      cases hc
    · rw [hhold] at hc
      cases hc
  | step _ hstep ih => exact (ih.step hhandle hothers hstep).1

/-- While no step has a deed the memory has what the store and the mail have. -/
theorem gap_of_restrict
    (hW : ((system B handle others init).restrict fun W e => deed B amount W e = 0).Reachable W) :
    gap B W = 0 := by
  induction hW with
  | init h0 => exact (hinit _ h0).1
  | step hreach hstep ih =>
    have hsound := sound_of_reachable hhandle hothers hinit hreach.of_restrict
    rw [(hsound.step hhandle hothers hstep.2).2, ih, hstep.1, add_zero]

/-- A step out of a state without a gap opens one exactly if it has a deed. -/
theorem gap_step_iff (hW : (system B handle others init).Reachable W) (hgap : gap B W = 0)
    (hstep : (system B handle others init).step W e W') :
    gap B W' = 0 ↔ deed B amount W e = 0 := by
  have hsound := sound_of_reachable hhandle hothers hinit hW
  rw [(hsound.step hhandle hothers hstep).2, hgap, zero_add]

end System

end Runs

end WriteBehind

end DnServer.Lib
