import DnServer.Skynet.Ownership

/-!
# What is not freed

A buffer is lost when it is sent to 0, and when only the envelope is freed that carries it: by a
send that finds no service, with the queue of a service or where there is no callback. Envelopes
are only with the harbor service. While it stays and takes over what its messages carry, and
nothing is sent to 0, no buffer is lost.
-/

namespace DnServer.Skynet

open DnServer.Lib

namespace Buffers

variable {n n' m : Node} {q : ℕ} {s : Service} {data : Data} {msg : Message Data}

/-! ## Envelopes -/

/-- No envelope in an envelope. -/
def Data.Shallow : Data → Prop
  | .remote _ _ message => message.inner = []
  | _ => True

theorem Data.pointers_eq_nil (h : data.pointers = []) : data = .null := by
  cases data with
  | null => rfl
  | buffer b => cases h
  | remote b destination message => cases h

theorem Data.shallow_of_inner (h : data.inner = []) : data.Shallow := by
  cases data with
  | null => trivial
  | buffer b => trivial
  | remote b destination message =>
    obtain rfl := Data.pointers_eq_nil h
    rfl

/-- Only to the harbor service come envelopes. -/
structure Service.Flat (s : Service) (harbor : Prop) : Prop where
  queue : ∀ msg ∈ s.queue.messages, msg.data.Shallow ∧ (¬harbor → msg.data.inner = [])
  msg : ∀ msg ∈ s.msg, msg.1.data.Shallow ∧ (¬harbor → msg.1.data.inner = [])
  kept : ∀ data ∈ s.kept, data.inner = []

namespace Node

/-- Nothing is sent to 0, the harbor service stays, and its callback takes over what an envelope
carries. -/
def Tidy (n : Node) : Event → Prop
  | .send _ destination a => destination ≠ 0 ∨ a.data = .null
  | .sendname _ (':' :: name) a => strtoul name ≠ 0 ∨ a.data = .null
  | .retire q => q ≠ n.REMOTE
  | .dispatch q => q = n.REMOTE → ∀ s ∈ n.services[q]?, s.cb = true
  | .take q | .callback_returns q _ =>
    q = n.REMOTE → ∀ s ∈ n.services[q]?, ∀ msg ∈ s.msg, msg.1.data.inner = []
  | _ => True

/-- Another first character than that of an address is not looked at. -/
theorem tidy_sendname {c : Char} (h : c ≠ ':') (n : Node) (q : ℕ) (name : List Char) (a : Args) :
    n.Tidy (.sendname q (c :: name) a) := by
  unfold Tidy
  split <;> simp_all

instance (n : Node) : (e : Event) → Decidable (n.Tidy e)
  | .send _ destination a => inferInstanceAs (Decidable (destination ≠ 0 ∨ a.data = .null))
  | .sendname q (c :: name) a =>
    if h : c = ':' then
      decidable_of_iff (strtoul name ≠ 0 ∨ a.data = .null) (by rw [h]; exact Iff.rfl)
    else .isTrue (tidy_sendname h n q name a)
  | .retire q => inferInstanceAs (Decidable (q ≠ n.REMOTE))
  | .dispatch q =>
    inferInstanceAs (Decidable (q = n.REMOTE → ∀ s ∈ n.services[q]?, s.cb = true))
  | .take q | .callback_returns q _ => inferInstanceAs (Decidable
    (q = n.REMOTE → ∀ s ∈ n.services[q]?, ∀ msg ∈ s.msg, msg.1.data.inner = []))
  | .sendname _ [] _ | .launch _ | .callback .. | .malloc _ | .free .. | .register | .error ..
  | .timeout .. | .lock .. | .unwrap _ | .forward .. | .release _ => .isTrue trivial

structure Whole (n : Node) : Prop where
  lost : n.lost = []
  flat : ∀ q (s : Service), n.services[q]? = some s → s.Flat (q = n.REMOTE)
  harbor : ∀ s : Service, n.services[n.REMOTE]? = some s → s.registered = true

theorem Whole.modify (h : n.Whole) {f : Service → Service}
    (hf : ∀ s : Service, n.services[q]? = some s → s.Flat (q = n.REMOTE) →
      (f s).Flat (q = n.REMOTE))
    (hregistered : q = n.REMOTE → ∀ s, (f s).registered = s.registered) :
    (n.modify q f).Whole := by
  have hget : ∀ q' s', (n.modify q f).services[q']? = some s' →
      (q' = q ∧ ∃ s, n.services[q]? = some s ∧ s' = f s) ∨ n.services[q']? = some s' := by
    intro q' s' hs'
    by_cases hq : q = q'
    · subst hq
      change (n.services.modify q f)[q]? = some s' at hs'
      rw [List.getElem?_modify_eq] at hs'
      obtain ⟨s, hs, rfl⟩ := Option.map_eq_some_iff.mp hs'
      exact .inl ⟨rfl, s, hs, rfl⟩
    · change (n.services.modify q f)[q']? = some s' at hs'
      rw [List.getElem?_modify_ne _ _ hq] at hs'
      exact .inr hs'
  refine ⟨h.lost, fun q' s' hs' => ?_, fun s' hs' => ?_⟩
  · obtain ⟨rfl, s, hs, rfl⟩ | hs := hget q' s' hs'
    · exact hf s hs (h.flat _ s hs)
    · exact h.flat q' s' hs
  · obtain ⟨hq, s, hs, rfl⟩ | hs := hget _ s' hs'
    · rw [hregistered hq.symm]
      exact h.harbor s (hq ▸ hs)
    · exact h.harbor s' hs

theorem Whole.free (h : n.Whole) (hdata : data.inner = []) : (n.free data).Whole := by
  cases data with
  | null => exact h
  | buffer b => exact ⟨h.lost, h.flat, h.harbor⟩
  | remote b destination message =>
    refine ⟨?_, h.flat, h.harbor⟩
    show message.pointers ++ n.lost = []
    rw [h.lost, List.append_nil]
    exact hdata

theorem mem_push {d : Deque Data} {msg' : Message Data} (h : msg' ∈ (d.push msg).messages) :
    msg' = msg ∨ msg' ∈ d.messages := by
  unfold Deque.push at h
  split at h
  · exact List.mem_cons.mp h
  · rcases List.mem_append.mp h with h | h
    · exact .inr h
    · exact .inl (List.mem_singleton.mp h)

theorem Whole.context_send (h : n.Whole) (hshallow : msg.data.Shallow)
    (hinner : q ≠ n.REMOTE → msg.data.inner = []) : (n.context_send q msg).Whole := by
  refine h.modify (fun s hs hflat => ⟨fun msg' hmsg' => ?_, hflat.msg, hflat.kept⟩) fun _ _ => rfl
  rcases mem_push hmsg' with rfl | hmsg'
  · exact ⟨hshallow, hinner⟩
  · exact hflat.queue msg' hmsg'

theorem Whole.push_or_free (h : n.Whole) {handle : ℕ} (hinner : msg.data.inner = []) :
    (n.push_or_free handle msg).Whole := by
  unfold Node.push_or_free context_push
  cases n.grab handle with
  | none => exact h.free hinner
  | some q => exact h.context_send (Data.shallow_of_inner hinner) fun _ => hinner

theorem Whole.harbor_send {destination : Recipient} {source type : ℕ} {session : ℤ} (h : n.Whole)
    (hinner : data.inner = [])
    (hsend : n.harbor_send destination source session type data = some n') : n'.Whole := by
  unfold Node.harbor_send at hsend
  split at hsend
  · cases hsend
  · obtain rfl := Option.some.inj hsend
    have hnext : Whole { n with next := n.next + 1 } := ⟨h.lost, h.flat, h.harbor⟩
    exact hnext.context_send hinner fun hne => absurd rfl hne

theorem Whole.send_message (h : n.Whole) {des : ℕ} (hinner : msg.data.inner = [])
    (hsend : n.send_message des msg = some n') : n'.Whole := by
  unfold Node.send_message at hsend
  split at hsend
  · exact h.harbor_send hinner hsend
  · obtain rfl := Option.some.inj hsend
    exact h.push_or_free hinner

theorem Whole.send_filtered (h : n.Whole) {destination : ℕ} {a : Args} {session : ℤ}
    (hinner : data.inner = []) (hdestination : destination ≠ 0 ∨ data = .null)
    (hsend : n.send_filtered q destination a session data = some n') : n'.Whole := by
  unfold Node.send_filtered at hsend
  dsimp only at hsend
  split at hsend
  · rename_i hzero
    obtain rfl := hdestination.resolve_left (not_not.mpr hzero)
    obtain rfl := Option.some.inj hsend
    exact ⟨h.lost, h.flat, h.harbor⟩
  · split at hsend
    · exact h.harbor_send hinner hsend
    · obtain rfl := Option.some.inj hsend
      exact h.push_or_free hinner

theorem Whole.filter_args (h : n.Whole) {a : Args} {session : ℤ}
    (hinner : a.data.given.inner = []) (hfilter : n.filter_args q a = some (m, session, data)) :
    m.Whole ∧ data.inner = [] ∧ (a.data = .null → data = .null) := by
  obtain ⟨n₀, hsession, hdata⟩ := filter_args_cases hfilter
  have hbefore : n₀.Whole := by
    rcases hsession with rfl | rfl
    · exact h
    · exact h.modify (fun s _ hflat => ⟨hflat.queue, hflat.msg, hflat.kept⟩) fun _ _ => rfl
  obtain ⟨rfl, rfl⟩ := Prod.mk.inj hdata
  cases hsent : a.data with
  | null => exact ⟨hbefore, rfl, fun _ => rfl⟩
  | copy => exact ⟨⟨hbefore.lost, hbefore.flat, hbefore.harbor⟩, rfl, fun hnull => nomatch hnull⟩
  | dontcopy data =>
    rw [hsent] at hinner
    exact ⟨hbefore, hinner, fun hnull => nomatch hnull⟩

theorem Whole.send (h : n.Whole) {destination : ℕ} {a : Args} (hinner : a.data.given.inner = [])
    (hdestination : destination ≠ 0 ∨ a.data = .null)
    (hsend : n.send q destination a = some n') : n'.Whole := by
  obtain ⟨⟨m, session, data⟩, hfilter, hsend⟩ := Option.bind_eq_some_iff.mp hsend
  obtain ⟨hm, hd, hnull⟩ := h.filter_args hinner hfilter
  exact hm.send_filtered hd (hdestination.imp_right hnull) hsend

theorem Whole.sendname (h : n.Whole) {addr : List Char} {a : Args}
    (hinner : a.data.given.inner = [])
    (hdestination : ∀ name, addr = ':' :: name → strtoul name ≠ 0 ∨ a.data = .null)
    (hsend : n.sendname q addr a = some n') : n'.Whole := by
  unfold Node.sendname at hsend
  dsimp only at hsend
  split at hsend
  · exact h.send (a := { a with source := 0 }) hinner (hdestination _ rfl) hsend
  · split at hsend
    · obtain rfl := Option.some.inj hsend
      exact h.free hinner
    · rename_i hne
      exact h.send (a := { a with source := 0 }) hinner (.inl hne) hsend
  · obtain ⟨⟨m, session, data⟩, hfilter, hsend⟩ := Option.bind_eq_some_iff.mp hsend
    obtain ⟨hm, hd, -⟩ := h.filter_args hinner hfilter
    exact hm.harbor_send hd hsend

theorem Whole.dispatch (h : n.Whole) (hs : n.services[q]? = some s)
    (hcb : q = n.REMOTE → s.cb = true) (hdispatch : n.dispatch q s = some n') : n'.Whole := by
  unfold Node.dispatch at hdispatch
  split at hdispatch
  · obtain rfl := Option.some.inj hdispatch
    exact h
  · rename_i msg rest hqueue
    have hflat := (h.flat q s hs).queue msg (by rw [hqueue]; exact List.mem_cons_self)
    have hpop : (n.modify q fun s => { s with queue := (s.queue.exec .pop).1 }).Whole :=
      h.modify (fun s _ hflat => ⟨fun msg hin => hflat.queue msg (List.mem_of_mem_tail hin),
        hflat.msg, hflat.kept⟩) fun _ _ => rfl
    dsimp only at hdispatch
    split at hdispatch
    · rename_i hnone
      obtain rfl := Option.some.inj hdispatch
      refine hpop.free (hflat.2 fun hq => ?_)
      rw [hcb hq] at hnone
      cases hnone
    · split at hdispatch
      · cases hdispatch
      · obtain rfl := Option.some.inj hdispatch
        refine hpop.modify (fun s' _ hflat' => ⟨hflat'.queue, ?_, hflat'.kept⟩) fun _ _ => rfl
        intro msg' hmsg'
        obtain rfl := Option.some.inj hmsg'
        exact hflat

theorem Whole.dispatched (h : n.Whole) {reserve : Bool} (hinner : msg.data.inner = [])
    (hdispatched : n.dispatched q s msg reserve = some n') : n'.Whole := by
  obtain ⟨⟨m, forwarded⟩, hforwarding, rfl⟩ := Option.map_eq_some_iff.mp hdispatched
  have hreturned : (n.modify q fun s => { s with msg := none }).Whole :=
    h.modify (fun s _ hflat => ⟨hflat.queue, nofun, hflat.kept⟩) fun _ _ => rfl
  have hm : m.Whole := by
    unfold forwarding at hforwarding
    split at hforwarding
    · obtain ⟨m', hsend, heq⟩ := Option.map_eq_some_iff.mp hforwarding
      obtain ⟨rfl, -⟩ := Prod.mk.inj heq
      exact (hreturned.modify (f := fun s => { s with forward := 0 })
        (fun s _ hflat => ⟨hflat.queue, hflat.msg, hflat.kept⟩) fun _ _ => rfl).send_message
        hinner hsend
    · obtain ⟨rfl, -⟩ := Prod.mk.inj (Option.some.inj hforwarding)
      exact hreturned
  dsimp only
  split
  · exact hm.free hinner
  · exact hm

theorem Whole.frees (h : n.Whole) {l : List Data} (hl : ∀ data ∈ l, data.inner = []) :
    (l.foldl Node.free n).Whole := by
  induction l generalizing n with
  | nil => exact h
  | cons data l ih =>
    exact ih (h.free (hl data List.mem_cons_self)) fun data' hin =>
      hl data' (List.mem_cons_of_mem _ hin)

theorem Whole.drop_queue (h : n.Whole)
    (hqueue : ∀ msg ∈ s.queue.messages, msg.data.inner = []) : (n.drop_queue q s).Whole := by
  have hempty : (n.modify q fun s => { s with queue := { s.queue with messages := [] } }).Whole :=
    h.modify (fun s _ hflat => ⟨nofun, hflat.msg, hflat.kept⟩) fun _ _ => rfl
  refine hempty.frees fun data hin => ?_
  obtain ⟨msg, hmsg, rfl⟩ := List.mem_map.mp hin
  exact hqueue msg hmsg

theorem Whole.give (h : n.Whole) (data : Data) : (n.modify q fun s => s.give data).Whole := by
  refine h.modify (f := fun s => s.give data) (fun s _ hflat => ?_) fun _ _ => rfl
  exact ⟨hflat.queue, hflat.msg, fun data' hin => hflat.kept data' (List.mem_of_mem_erase hin)⟩

theorem Whole.inner_of_owns (h : n.Whole) (hown : n.Owns q data) : data.inner = [] := by
  rcases hown with rfl | ⟨s, hs, hin⟩
  · rfl
  · exact (h.flat q s hs).kept data hin

theorem Whole.exec (h : n.Whole) {e : Event} (hc : n.Careful e) (ht : n.Tidy e)
    (he : n.exec e = some n') : n'.Whole := by
  cases e with
  | launch handle =>
    obtain rfl := Option.some.inj he
    -- a service begins with nothing, and is not the harbor service
    let launched : Service := ⟨handle, true, false, 0, 0, ⟨[], 0⟩, none, []⟩
    have hget : ∀ (q : ℕ) (s : Service), (n.services ++ [launched])[q]? = some s →
        n.services[q]? = some s ∨ s = launched := by
      intro q s hs
      rw [List.getElem?_append] at hs
      split at hs
      · exact .inl hs
      · exact .inr (List.mem_singleton.mp (List.mem_of_getElem? hs))
    refine ⟨h.lost, fun q s hs => ?_, fun s hs => ?_⟩
    · rcases hget q s hs with hs | rfl
      · exact h.flat q s hs
      · exact ⟨nofun, nofun, nofun⟩
    · rcases hget _ s hs with hs | rfl
      · exact h.harbor s hs
      · rfl
  | callback q cb =>
    obtain rfl := Option.some.inj he
    exact h.modify (fun s _ hflat => ⟨hflat.queue, hflat.msg, hflat.kept⟩) fun _ _ => rfl
  | retire q =>
    obtain rfl := Option.some.inj he
    exact h.modify (fun s _ hflat => ⟨hflat.queue, hflat.msg, hflat.kept⟩) fun hq => absurd hq ht
  | malloc q =>
    change (if q < n.services.length then _ else none) = some n' at he
    split at he
    · obtain rfl := Option.some.inj he
      have hmalloc : n.malloc.1.Whole := ⟨h.lost, h.flat, h.harbor⟩
      refine hmalloc.modify (fun s _ hflat => ⟨hflat.queue, hflat.msg, ?_⟩) fun _ _ => rfl
      intro data hin
      rcases List.mem_cons.mp hin with rfl | hin
      · rfl
      · exact hflat.kept data hin
    · cases he
  | free q data =>
    obtain rfl := Option.some.inj he
    exact (h.give data).free (h.inner_of_owns hc)
  | send q destination a => exact (h.give _).send (h.inner_of_owns hc) ht he
  | sendname q addr a =>
    refine (h.give _).sendname (h.inner_of_owns hc) (fun name haddr => ?_) he
    subst haddr
    exact ht
  | register =>
    change (if n.REMOTE < n.services.length then _ else none) = some n' at he
    split at he
    · obtain rfl := Option.some.inj he
      have hmalloc : n.malloc.1.Whole := ⟨h.lost, h.flat, h.harbor⟩
      exact hmalloc.context_send trivial fun _ => rfl
    · cases he
  | error source logger =>
    obtain rfl := Option.some.inj he
    have hmalloc : n.malloc.1.Whole := ⟨h.lost, h.flat, h.harbor⟩
    exact hmalloc.push_or_free rfl
  | timeout handle session =>
    obtain rfl := Option.some.inj he
    have hnull : (⟨0, session, 1, .null⟩ : Message Data).data.inner = [] := rfl
    exact h.push_or_free hnull
  | lock q session =>
    obtain rfl := Option.some.inj he
    exact h.modify (fun s _ hflat => ⟨hflat.queue, hflat.msg, hflat.kept⟩) fun _ _ => rfl
  | dispatch q =>
    obtain ⟨s, hs, hrest⟩ := Option.bind_eq_some_iff.mp he
    split at hrest
    · cases hrest
    · exact h.dispatch hs (fun hq => ht hq s hs) hrest
  | take q =>
    obtain ⟨s, hs, hrest⟩ := Option.bind_eq_some_iff.mp he
    split at hrest
    · rename_i msg hmsg
      obtain rfl := Option.some.inj hrest
      have hflat := h.flat q s hs
      -- only the harbor service is sent envelopes, and it does not take them over closed
      have hinner : msg.data.inner = [] := by
        by_cases hq : q = n.REMOTE
        · exact ht hq s hs _ hmsg
        · exact (hflat.msg _ hmsg).2 hq
      refine h.modify (fun s' _ hflat' => ⟨hflat'.queue, ?_, ?_⟩) fun _ _ => rfl
      · intro msg' hmsg'
        obtain rfl := Option.some.inj hmsg'
        exact ⟨Data.shallow_of_inner hinner, fun _ => hinner⟩
      · intro data hin
        rcases List.mem_cons.mp hin with rfl | hin
        · exact hinner
        · exact hflat'.kept data hin
    · cases hrest
  | unwrap q =>
    obtain ⟨s, hs, hrest⟩ := Option.bind_eq_some_iff.mp he
    split at hrest
    · rename_i source session type b destination message hmsg
      obtain rfl := Option.some.inj hrest
      have hinner : message.inner = [] := ((h.flat q s hs).msg _ hmsg).1
      refine h.modify (fun s' _ hflat' => ⟨hflat'.queue, ?_, ?_⟩) fun _ _ => rfl
      · intro msg' hmsg'
        obtain rfl := Option.some.inj hmsg'
        exact ⟨rfl, fun _ => rfl⟩
      · intro data hin
        rcases List.mem_cons.mp hin with rfl | hin
        · exact hinner
        · exact hflat'.kept data hin
    · cases hrest
  | forward q destination =>
    obtain ⟨s, -, hrest⟩ := Option.bind_eq_some_iff.mp he
    split at hrest
    · cases hrest
    · obtain rfl := Option.some.inj hrest
      exact h.modify (fun s _ hflat => ⟨hflat.queue, hflat.msg, hflat.kept⟩) fun _ _ => rfl
  | callback_returns q reserve =>
    obtain ⟨s, hs, hrest⟩ := Option.bind_eq_some_iff.mp he
    obtain ⟨msg, hmsg, hrest⟩ := Option.bind_eq_some_iff.mp hrest
    refine h.dispatched ?_ hrest
    by_cases hq : q = n.REMOTE
    · exact ht hq s hs msg hmsg
    · exact ((h.flat q s hs).msg msg hmsg).2 hq
  | release q =>
    obtain ⟨s, hs, hrest⟩ := Option.bind_eq_some_iff.mp he
    split at hrest
    · cases hrest
    · rename_i hgone
      obtain rfl := Option.some.inj hrest
      have hq : q ≠ n.REMOTE := by
        rintro rfl
        exact hgone (.inl (h.harbor s hs))
      exact h.drop_queue fun msg hin => ((h.flat q s hs).queue msg hin).2 hq

/-- **Nothing is lost**: each buffer is with one service, or it was freed once. -/
theorem nothing_lost (h : (system.restrict fun n e => n.Careful e ∧ n.Tidy e).Reachable n) :
    n.lost = [] ∧ ∀ b < n.next, n.held b + n.freed.count b = 1 := by
  have hcareful : (system.restrict Careful).Reachable n :=
    TSys.Reachable.mono (T := system.restrict fun n e => n.Careful e ∧ n.Tidy e)
      (U := system.restrict Careful) (fun _ h0 => h0) (fun _ _ _ hs => ⟨hs.1.1, hs.2⟩) h
  have hwhole : (system.restrict fun n e => n.Careful e ∧ n.Tidy e).Inductive Whole := by
    refine ⟨?_, ?_⟩
    · rintro n ⟨hservices, -, -, hlost⟩
      refine ⟨hlost, fun q s hs => ?_, fun s hs => ?_⟩
      · rw [hservices] at hs
        cases hs
      · rw [hservices] at hs
        cases hs
    · intro n e n' _ hn hstep
      exact hn.exec hstep.1.1 hstep.1.2 hstep.2
  have hlost := (hwhole.invariant n h).lost
  refine ⟨hlost, fun b hb => ?_⟩
  have hcount : n.held b + n.gone b = _ := accounted_of_careful hcareful b
  unfold gone at hcount
  rw [hlost, List.count_nil, if_pos hb] at hcount
  exact hcount

theorem nothing_lost_exchange : ∃ n : Node, n.freed = [0, 2, 1] ∧
    n.lost = [] ∧ ∀ b < n.next, n.held b + n.freed.count b = 1 := by
  obtain ⟨n, hreach, hn⟩ := TSys.reachable_of_exec (p := fun n : Node => n.freed == [0, 2, 1])
    (TSys.restrictExec_step (T := system) (C := fun n e => n.Careful e ∧ n.Tidy e)
      fun _ _ _ h => h)
    (s := start) ⟨rfl, rfl, rfl, rfl⟩ (l := three ++ exchange) (by decide +kernel)
  exact ⟨n, by simpa using hn, nothing_lost hreach⟩

end Node

end Buffers

end DnServer.Skynet
