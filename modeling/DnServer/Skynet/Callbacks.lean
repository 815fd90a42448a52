import DnServer.Skynet.Leaks

/-!
# What the callback of the harbor service does with buffers

`_mainloop` of `service_harbor.c` as what it asks of the node. It keeps to what `Careful` and
`Tidy` say, whatever becomes of its sends.
-/

namespace DnServer.Skynet

open DnServer.Lib

namespace Buffers

/-- `_mainloop` of the harbor service, beside its sockets: for a message that comes in, and for one
that is to go out and is found to be local, `route` is where it is sent. -/
def mainloop (q : ℕ) (msg : Message Data) (route : Option (ℕ × Args)) : List Event :=
  if msg.type = PTYPE_HARBOR then
    match route with
    | some (destination, a) =>
      [.take q, .send q destination { a with data := .dontcopy msg.data }, .callback_returns q true]
    | none => [.callback_returns q false]
  else if msg.type = PTYPE_SYSTEM then [.callback_returns q false]
  else
    match msg.data with
    | .remote _ _ message =>
      match route with
      | some (destination, a) =>
        [.unwrap q, .send q destination { a with data := .dontcopy message },
          .callback_returns q false]
      | none => [.unwrap q, .free q message, .callback_returns q false]
    | _ => []

/-! ## What a send leaves as it was -/

/-- The message that is dispatched and where it is forwarded to. -/
def Service.Same (s s' : Service) : Prop := s'.msg = s.msg ∧ s'.forward = s.forward

namespace Node

variable {n n' m : Node} {q : ℕ} {s : Service} {data : Data} {msg : Message Data}

/-- No service is disturbed in its callback. -/
def Keeps (n n' : Node) : Prop :=
  ∀ (q : ℕ) (s : Service), n.services[q]? = some s → ∃ s', n'.services[q]? = some s' ∧ s.Same s'

theorem keeps_of_services (h : n'.services = n.services) : Keeps n n' :=
  fun _ s hs => ⟨s, by rw [h, hs], rfl, rfl⟩

theorem Keeps.trans (h : Keeps n m) (h' : Keeps m n') : Keeps n n' := by
  intro q s hs
  obtain ⟨s₁, hs₁, hmsg₁, hforward₁⟩ := h q s hs
  obtain ⟨s₂, hs₂, hmsg₂, hforward₂⟩ := h' q s₁ hs₁
  exact ⟨s₂, hs₂, hmsg₂.trans hmsg₁, hforward₂.trans hforward₁⟩

theorem services_modify (hs : n.services[q]? = some s) (f : Service → Service) :
    (n.modify q f).services[q]? = some (f s) := by
  show (n.services.modify q f)[q]? = _
  rw [List.getElem?_modify_eq, hs]
  rfl

theorem keeps_modify {f : Service → Service} (hf : ∀ s : Service, s.Same (f s)) :
    Keeps n (n.modify q f) := by
  intro q' s hs
  by_cases hq : q = q'
  · subst hq
    exact ⟨f s, services_modify hs f, hf s⟩
  · refine ⟨s, ?_, rfl, rfl⟩
    show (n.services.modify q f)[q']? = _
    rw [List.getElem?_modify_ne _ _ hq, hs]

theorem keeps_push_or_free (n : Node) (handle : ℕ) (msg : Message Data) :
    Keeps n (n.push_or_free handle msg) := by
  unfold push_or_free context_push
  cases n.grab handle with
  | none => exact keeps_of_services (free_services n _)
  | some q => exact keeps_modify fun _ => ⟨rfl, rfl⟩

theorem keeps_harbor_send {destination : Recipient} {source type : ℕ} {session : ℤ}
    (h : n.harbor_send destination source session type data = some n') : Keeps n n' := by
  unfold harbor_send at h
  split at h
  · cases h
  · obtain rfl := Option.some.inj h
    exact (keeps_of_services rfl).trans (keeps_modify fun _ => ⟨rfl, rfl⟩)

theorem keeps_filter_args {a : Args} {session : ℤ}
    (h : n.filter_args q a = some (m, session, data)) : Keeps n m := by
  obtain ⟨n₀, hsession, hdata⟩ := filter_args_cases h
  have hbefore : Keeps n n₀ := by
    rcases hsession with rfl | rfl
    · exact keeps_of_services rfl
    · exact keeps_modify fun _ => ⟨rfl, rfl⟩
  obtain ⟨rfl, -⟩ := Prod.mk.inj hdata
  refine hbefore.trans (keeps_of_services ?_)
  cases a.data <;> rfl

theorem keeps_send {destination : ℕ} {a : Args} (h : n.send q destination a = some n') :
    Keeps n n' := by
  obtain ⟨⟨m, session, data⟩, hfilter, hsend⟩ := Option.bind_eq_some_iff.mp h
  refine (keeps_filter_args hfilter).trans ?_
  unfold send_filtered at hsend
  dsimp only at hsend
  split at hsend
  · obtain rfl := Option.some.inj hsend
    exact keeps_of_services rfl
  · split at hsend
    · exact keeps_harbor_send hsend
    · obtain rfl := Option.some.inj hsend
      exact keeps_push_or_free m _ _

/-! ## The callbacks keep to it -/

/-- An event that the services may ask for. -/
def Proper (n : Node) (e : Event) : Prop := n.Careful e ∧ n.Tidy e

/-- Every event of the list is proper where the node has come to. -/
def AllProper : Node → List Event → Prop
  | _, [] => True
  | n, e :: es => n.Proper e ∧ ∀ n', n.exec e = some n' → AllProper n' es

/-- The callback returns to a node that has not touched its message. -/
theorem proper_returns {taken : Bool} (hs : n.services[q]? = some s)
    (hmsg : s.msg = some (msg, taken)) (hinner : msg.data.inner = [])
    (hforward : taken = true → s.forward = 0) :
    n.AllProper [.callback_returns q taken] := by
  have hget : ∀ {s' : Service}, s' ∈ n.services[q]? → s' = s := fun hs' =>
    Option.some.inj ((Option.mem_def.mp hs').symm.trans hs)
  refine ⟨⟨fun s' hs' msg' hmsg' => ?_, fun _ s' hs' msg' hmsg' => ?_⟩, fun _ _ => trivial⟩
  · obtain rfl := hget hs'
    obtain rfl := Option.some.inj (hmsg.symm.trans hmsg')
    exact ⟨rfl, hforward⟩
  · obtain rfl := hget hs'
    obtain rfl := Option.some.inj (hmsg.symm.trans hmsg')
    exact hinner

/-- It returns after a send without a copy of what is its own. -/
theorem proper_send {taken : Bool} {destination : ℕ} {a : Args} (hs : n.services[q]? = some s)
    (hmsg : s.msg = some (msg, taken)) (hin : data ∈ s.kept) (hdestination : destination ≠ 0)
    (hinner : msg.data.inner = []) (hforward : taken = true → s.forward = 0) :
    n.AllProper [.send q destination { a with data := .dontcopy data },
      .callback_returns q taken] := by
  refine ⟨⟨.inr ⟨s, hs, hin⟩, .inl hdestination⟩, fun n' hn' => ?_⟩
  obtain ⟨s', hs', hmsg', hforward'⟩ := (keeps_modify (f := fun s => s.give data)
    fun _ => ⟨rfl, rfl⟩).trans (keeps_send hn') q s hs
  exact proper_returns hs' (hmsg'.trans hmsg) hinner fun ht => hforward'.trans (hforward ht)

/-- **The callback of the harbor service keeps to the rules**: it takes over what it passes on, and
what an envelope carries is passed on or freed. -/
theorem mainloop_proper {n : Node} {q : ℕ} {s : Service} {msg : Message Data}
    {route : Option (ℕ × Args)} (hs : n.services[q]? = some s) (hmsg : s.msg = some (msg, false))
    (hforward : s.forward = 0)
    (hraw : msg.type = PTYPE_HARBOR ∨ msg.type = PTYPE_SYSTEM → msg.data.inner = [])
    (hroute : ∀ r ∈ route, r.1 ≠ 0) : n.AllProper (mainloop q msg route) := by
  unfold mainloop
  split
  · rename_i htype
    split
    · rename_i destination a
      refine ⟨⟨trivial, fun _ s' hs' msg' hmsg' => ?_⟩, fun n' hn' => ?_⟩
      · obtain rfl := Option.some.inj ((Option.mem_def.mp hs').symm.trans hs)
        obtain rfl := Option.some.inj (hmsg.symm.trans hmsg')
        exact hraw (.inl htype)
      · obtain ⟨s', hs', hrest⟩ := Option.bind_eq_some_iff.mp hn'
        obtain rfl := Option.some.inj (hs.symm.trans hs')
        rw [hmsg] at hrest
        obtain rfl := Option.some.inj hrest
        exact proper_send (services_modify hs _) rfl List.mem_cons_self (hroute _ rfl)
          (hraw (.inl htype)) fun _ => hforward
    · exact proper_returns hs hmsg (hraw (.inl htype)) nofun
  · split
    · rename_i htype
      exact proper_returns hs hmsg (hraw (.inr htype)) nofun
    · obtain ⟨source, session, type, data⟩ := msg
      cases data with
      | null => trivial
      | buffer b => trivial
      | remote b destination message =>
        cases route with
        | some r =>
          refine ⟨⟨trivial, trivial⟩, fun n' hn' => ?_⟩
          obtain ⟨s', hs', hrest⟩ := Option.bind_eq_some_iff.mp hn'
          obtain rfl := Option.some.inj (hs.symm.trans hs')
          rw [hmsg] at hrest
          obtain rfl := Option.some.inj hrest
          exact proper_send (services_modify hs _) rfl List.mem_cons_self (hroute _ rfl) rfl nofun
        | none =>
          refine ⟨⟨trivial, trivial⟩, fun n' hn' => ?_⟩
          obtain ⟨s', hs', hrest⟩ := Option.bind_eq_some_iff.mp hn'
          obtain rfl := Option.some.inj (hs.symm.trans hs')
          rw [hmsg] at hrest
          obtain rfl := Option.some.inj hrest
          refine ⟨⟨.inr ⟨_, services_modify hs _, List.mem_cons_self⟩, trivial⟩, fun n' hn' => ?_⟩
          obtain rfl := Option.some.inj hn'
          obtain ⟨s', hs', hmsg', -⟩ := (keeps_modify (f := fun s => s.give message)
            fun _ => ⟨rfl, rfl⟩).trans (keeps_of_services (free_services _ message)) q _
            (services_modify hs _)
          exact proper_returns hs' (hmsg'.trans rfl) rfl nofun

/-- A message to another harbor waits in the callback. -/
def outgoing : Service :=
  ⟨16777217, true, true, 0, 0, ⟨[], 0⟩,
    some (⟨16777218, 0, 0, .remote 1 (.handle 33554433) (.buffer 0)⟩, false), []⟩

theorem mainloop_proper_outgoing :
    AllProper ⟨16777216, 0, [outgoing], [], 2, [], []⟩
      (mainloop 0 ⟨16777218, 0, 0, .remote 1 (.handle 33554433) (.buffer 0)⟩ none) :=
  mainloop_proper (s := outgoing) rfl rfl rfl (by decide) nofun

end Node

end Buffers

end DnServer.Skynet
