import DnServer.Harbor.Network

/-!
# What a package changes

One lemma for each function: what the master does with a package and what it
writes for it, and what a step of a harbor does to its table of names and to the
addresses that it is connected to.
-/

namespace DnServer.Harbor

open DnServer.Lib Names

/-! ## Names in packages -/

variable {name : List ℕ}

theorem length_copy_name (buffer : List ℕ) : (copy_name buffer).length = GLOBALNAME_LENGTH := by
  unfold copy_name
  split
  · rw [List.length_append, List.length_replicate]
    omega
  · rw [List.length_take]
    omega

theorem addrOf_bytesOf (addr : Addr) : addrOf (bytesOf addr) = addr := by
  unfold addrOf bytesOf
  rw [List.map_map]
  simp [Function.comp_def]

theorem harborOf_lt (handle : BitVec 32) : harborOf handle < REMOTE_MAX := by
  have := handle.isLt
  unfold harborOf
  rw [BitVec.toNat_ushiftRight, Nat.shiftRight_eq_div_pow]
  exact Nat.div_lt_of_lt_mul this

theorem toNat_harbor_handle {i : ℕ} (h : i < REMOTE_MAX) : (harbor_handle i).toNat = i := by
  have hmax : REMOTE_MAX = 256 := rfl
  unfold harbor_handle
  rw [BitVec.toNat_ofNat, Nat.mod_eq_of_lt (by omega)]

namespace Package

/-- The handle that the master tells for a name. -/
def named (name : List ℕ) (p : Package) : Option (BitVec 32) :=
  if REMOTE_MAX ≤ p.handle.toNat ∧ p.body = name then some p.handle else none

/-- The address that the master tells of a harbor. -/
def placed (i : ℕ) (p : Package) : Option (Option Addr) :=
  if p.handle.toNat = i then some (some (addrOf p.body)) else none

/-- A harbor registers the name. -/
def Registers (p : Package) (name : List ℕ) : Prop :=
  REMOTE_MAX ≤ p.handle.toNat ∧ copy_name p.body = name

/-- A harbor asks for the name. -/
def Asks (p : Package) (name : List ℕ) : Prop := p.handle = 0 ∧ copy_name p.body = name

/-- It is a report of the harbor's address. -/
def Reports (p : Package) (i : ℕ) : Prop := p.handle ≠ 0 ∧ p.handle.toNat = i ∧ i < REMOTE_MAX

instance (p : Package) (name : List ℕ) : Decidable (p.Registers name) :=
  inferInstanceAs (Decidable (_ ∧ _))

instance (p : Package) (name : List ℕ) : Decidable (p.Asks name) :=
  inferInstanceAs (Decidable (_ ∧ _))

variable {p : Package}

theorem named_eq_none (h : p.handle.toNat < REMOTE_MAX) : p.named name = none :=
  if_neg fun hn => absurd hn.1 (by omega)

theorem named_self {handle : BitVec 32} (h : REMOTE_MAX ≤ handle.toNat) :
    named name ⟨handle, name⟩ = some handle := if_pos ⟨h, rfl⟩

theorem named_of_ne (h : p.body ≠ name) : p.named name = none := if_neg fun hn => h hn.2

theorem Reports.toMaster {i : ℕ} (h : p.Reports i) (fd : Option ℕ) (attempt : ℕ → Attempt) :
    p.toMaster fd attempt = .update_address i (addrOf p.body) fd attempt := by
  obtain ⟨hne, rfl, hsmall⟩ := h
  unfold Package.toMaster
  rw [if_neg hne, if_pos hsmall]

end Package

/-! ## What the master does -/

namespace Master

variable {m m' : Master} {e : MasterEv} {r : Master × Option (ℕ → Attempt)}
  {attempt : ℕ → Attempt} {i j : ℕ}

/-- What a broadcast leaves alone; an entry is kept, or given up for a write that failed. -/
structure Spread (m m' : Master) (attempt : ℕ → Attempt) : Prop where
  map : m'.map = m.map
  addr : m'.remote_addr = m.remote_addr
  fd : ∀ i, m'.remote_fd i = m.remote_fd i ∨
    m'.remote_fd i = none ∧ (m.remote_fd i).isSome ∧ (attempt i).err = true

theorem broadcast_to_spread (h : m.broadcast_to attempt i = some m') : m.Spread m' attempt := by
  rcases broadcast_to_cases h with rfl | ⟨fd, addr, hfd, -, herr, rfl | ⟨fd', -, -, rfl⟩⟩
  · exact ⟨rfl, rfl, fun _ => .inl rfl⟩
  · refine ⟨rfl, rfl, fun j => ?_⟩
    by_cases hj : j = i
    · subst hj
      exact .inr ⟨Function.update_self .., by rw [hfd]; rfl, herr⟩
    · exact .inl (Function.update_of_ne hj _ _)
  · exact ⟨rfl, rfl, fun _ => .inl rfl⟩

theorem rounds_spread {l : List ℕ} (h : l.foldlM (broadcast_to attempt) m = some m') :
    m.Spread m' attempt := by
  induction l generalizing m with
  | nil =>
    obtain rfl := Option.some.inj h
    exact ⟨rfl, rfl, fun _ => .inl rfl⟩
  | cons i l ih =>
    rw [List.foldlM_cons] at h
    obtain ⟨m₁, hround, hrest⟩ := Option.bind_eq_some_iff.mp h
    have h₁ := broadcast_to_spread hround
    have h₂ := ih hrest
    refine ⟨h₂.map.trans h₁.map, h₂.addr.trans h₁.addr, fun j => ?_⟩
    rcases h₂.fd j with heq | ⟨hnone, hsome, herr⟩
    · rw [heq]
      exact h₁.fd j
    · rcases h₁.fd j with heq | ⟨hnone', -, -⟩
      · exact .inr ⟨hnone, heq ▸ hsome, herr⟩
      · rw [hnone'] at hsome
        cases hsome

/-- What a handled event comes to: the state before the broadcast, and the broadcast. -/
theorem exec_cases (hb : m.before e = some r) (hx : m.exec e = some m') :
    (r.2 = none ∧ m' = r.1) ∨ ∃ attempt, r.2 = some attempt ∧ r.1.Spread m' attempt := by
  unfold exec at hx
  rw [hb] at hx
  obtain ⟨m₁, broadcast⟩ := r
  cases broadcast with
  | none => exact .inl ⟨rfl, (Option.some.inj hx).symm⟩
  | some attempt => exact .inr ⟨attempt, rfl, rounds_spread hx⟩

/-- Only an address with a port is connected to. -/
theorem port_of_connect_to {addr : Addr} {c fd : Option ℕ} (h : m.connect_to addr c = some (m', fd))
    (hfd : fd.isSome) : ':' ∈ addr := by
  unfold connect_to at h
  cases c with
  | none =>
    cases h
    cases hfd
  | some fd' => exact (Option.ite_none_right_eq_some.mp h).1.1

/-- An entry without a descriptor is connected to its new address, or stays without one. -/
theorem record_spec {addr : Addr} {fd : Option ℕ} {b : Bool} (hnone : m.remote_fd i = none)
    (h : (match ({ m with remote_addr := Function.update m.remote_addr i (some addr) } :
        Master).connect_to addr fd with
      | none => none
      | some (m, none) => some (m, false)
      | some (m, some fd) =>
        some ({ m with remote_fd := Function.update m.remote_fd i (some fd) }, true)) =
      some (m', b)) :
    m'.map = m.map ∧ m'.remote_addr = Function.update m.remote_addr i (some addr) ∧
      (m'.remote_fd i).isSome = b ∧ ∀ j, j ≠ i → m'.remote_fd j = m.remote_fd j := by
  split at h
  · cases h
  · rename_i m₂ hc
    cases h
    rcases connect_to_cases hc with ⟨-, rfl⟩ | ⟨_, -, hr, -⟩
    · refine ⟨rfl, rfl, ?_, fun _ _ => rfl⟩
      show (m.remote_fd i).isSome = false
      rw [hnone]
      rfl
    · cases hr
  · rename_i m₂ fd hc
    cases h
    rcases connect_to_cases hc with ⟨hr, -⟩ | ⟨fd', -, -, -, rfl⟩
    · cases hr
    · refine ⟨rfl, rfl, ?_, fun j hj => Function.update_of_ne hj _ _⟩
      show (Function.update m.remote_fd i (some fd) i).isSome = true
      rw [Function.update_self]
      rfl

/-- An address that is registered: the entry is made anew. -/
theorem register_spec {addr : Addr} {fd : Option ℕ} {b : Bool}
    (h : m.register i addr fd = some (m', b)) :
    m'.map = m.map ∧ m'.remote_addr = Function.update m.remote_addr i (some addr) ∧
      (m'.remote_fd i).isSome = b ∧ ∀ j, j ≠ i → m'.remote_fd j = m.remote_fd j := by
  unfold register at h
  cases hfd : m.remote_fd i with
  | none =>
    rw [hfd] at h
    exact record_spec hfd h
  | some fd' =>
    rw [hfd] at h
    obtain ⟨hmap, haddr, hsome, hothers⟩ := record_spec
      (m := { m.close fd' with remote_fd := Function.update m.remote_fd i none })
      (Function.update_self ..) h
    exact ⟨hmap, haddr, hsome, fun j hj => (hothers j hj).trans (Function.update_of_ne hj _ _)⟩

/-- The table of a master: names have handles of services, and entries an address. -/
structure Proper (m : Master) : Prop where
  map : ∀ name value, m.map name = some value → REMOTE_MAX ≤ value ∧ value < 2 ^ 32
  addr : ∀ i, (m.remote_fd i).isSome → (m.remote_addr i).isSome ∧ 0 < i ∧ i < REMOTE_MAX

theorem Proper.spread (h : m.Proper) (hs : m.Spread m' attempt) : m'.Proper where
  map := by
    rw [hs.map]
    exact h.map
  addr := by
    intro i hi
    rw [hs.addr]
    rcases hs.fd i with heq | ⟨hnone, -, -⟩
    · exact h.addr i (heq ▸ hi)
    · rw [hnone] at hi
      cases hi

variable {p : Package} {fd : Option ℕ}

theorem Proper.before (h : m.Proper) (hb : m.before (p.toMaster fd attempt) = some r) :
    r.1.Proper := by
  unfold Package.toMaster at hb
  split at hb
  · unfold Master.before at hb
    dsimp only at hb
    split at hb <;> obtain rfl := Option.some.inj hb <;> exact h
  · split at hb
    · obtain ⟨⟨hpos, hlt⟩, hreg⟩ := Option.ite_none_right_eq_some.mp hb
      obtain ⟨⟨m₁, b⟩, hreg', rfl⟩ := Option.map_eq_some_iff.mp hreg
      obtain ⟨hmap, haddr, -, hothers⟩ := register_spec hreg'
      constructor
      · rw [hmap]
        exact h.map
      · intro i hi
        rw [haddr]
        by_cases hne : i = p.handle.toNat
        · subst hne
          rw [Function.update_self]
          exact ⟨rfl, hpos, hlt⟩
        · rw [Function.update_of_ne hne]
          exact h.addr i (hothers i hne ▸ hi)
    · rename_i hlarge
      obtain rfl := Option.some.inj hb
      refine ⟨fun name value hv => ?_, h.addr⟩
      change Function.update m.map (copy_name p.body) (some p.handle.toNat) name = some value at hv
      by_cases hne : name = copy_name p.body
      · subst hne
        rw [Function.update_self] at hv
        obtain rfl := Option.some.inj hv
        exact ⟨by omega, p.handle.isLt⟩
      · rw [Function.update_of_ne hne] at hv
        exact h.map name value hv

/-- The descriptors of other parts of the process are in no table. -/
theorem exec_descriptor {e : MasterEv} {fd : ℕ} (he : e = .opened fd ∨ e = .closed fd)
    (hx : m.exec e = some m') :
    m'.map = m.map ∧ m'.remote_addr = m.remote_addr ∧ m'.remote_fd = m.remote_fd := by
  rcases he with rfl | rfl
  all_goals
    obtain ⟨r, hb, hx⟩ := Option.bind_eq_some_iff.mp hx
    obtain ⟨-, hst⟩ := Option.ite_none_right_eq_some.mp hb
    obtain rfl := Option.some.inj hst
    obtain rfl := Option.some.inj hx
    exact ⟨rfl, rfl, rfl⟩

theorem Proper.exec (h : m.Proper) (hb : m.before (p.toMaster fd attempt) = some r)
    (hx : m.exec (p.toMaster fd attempt) = some m') : m'.Proper := by
  rcases exec_cases hb hx with ⟨-, rfl⟩ | ⟨_, -, hs⟩
  · exact h.before hb
  · exact (h.before hb).spread hs

end Master

/-! ## What a step of a harbor leaves alone -/

namespace Names.HarborState

variable {μ : Type} {h h' h'' : HarborState (List ℕ) μ} {i j fd : ℕ} {connect : Option ℕ}
  {name : List ℕ} {attempt : Attempt} {attempts : List Attempt} {handle : BitVec 32}
  {queue queue' : MsgQueue μ} {addr : Addr}

/-- Connections are made anew only where there were some, to the same address. -/
structure Steady (h h' : HarborState (List ℕ) μ) : Prop where
  id : h'.id = h.id
  addr : h'.remote_addr = h.remote_addr
  fd : ∀ i, h.remote_fd i = none → h'.remote_fd i = none

/-- Where the connections are as they were. -/
theorem Steady.same (hid : h'.id = h.id) (haddr : h'.remote_addr = h.remote_addr)
    (hfd : h'.remote_fd = h.remote_fd) : h.Steady h' :=
  ⟨hid, haddr, fun i hi => by rw [hfd, hi]⟩

theorem Steady.trans (h₁ : h.Steady h') (h₂ : h'.Steady h'') : h.Steady h'' :=
  ⟨h₂.id.trans h₁.id, h₂.addr.trans h₁.addr, fun i hi => h₂.fd i (h₁.fd i hi)⟩

theorem reconnect_steady (hfd : (h.remote_fd i).isSome) (hx : h.reconnect i fd connect = some h') :
    h.Steady h' ∧ h'.map = h.map := by
  obtain ⟨hid, hmap, -, -, -, hothers⟩ := reconnect_frame hx
  refine ⟨⟨hid, ?_, fun j hj => ?_⟩, hmap⟩
  · obtain ⟨addr, -, ⟨-, rfl⟩ | ⟨fd', -, -, rfl⟩⟩ := reconnect_cases hx <;> rfl
  · have hne : j ≠ i := by
      rintro rfl
      rw [hj] at hfd
      cases hfd
    exact (hothers j hne).trans hj

theorem dispatch_loop_steady (hfd : (h.remote_fd i).isSome)
    (hx : dispatch_loop name i fd attempts h queue = some (h', queue')) :
    h.Steady h' ∧ h'.map = h.map := by
  induction attempts generalizing h queue with
  | nil =>
    obtain ⟨-, hst⟩ := Option.ite_none_right_eq_some.mp hx
    cases hst
    exact ⟨.same rfl rfl rfl, rfl⟩
  | cons attempt attempts ih =>
    unfold dispatch_loop at hx
    split at hx
    · split at hx
      · obtain ⟨h₁, hre, hx⟩ := Option.bind_eq_some_iff.mp hx
        obtain ⟨hsteady, hmap⟩ := reconnect_steady hfd hre
        have hnoted : ∀ msg fate, h.Steady (h₁.note name msg fate) := fun _ _ =>
          ⟨hsteady.id, hsteady.addr, hsteady.fd⟩
        dsimp only at hx
        split at hx
        · rename_i hagain
          obtain ⟨hrest, hmap'⟩ := ih hagain hx
          exact ⟨(hnoted _ _).trans hrest, hmap'.trans hmap⟩
        · split at hx
          · cases hx
            exact ⟨hnoted _ _, hmap⟩
          · cases hx
      · split at hx
        · cases hx
        · obtain ⟨hrest, hmap⟩ := ih (h := h.note name _ _) hfd hx
          exact ⟨⟨hrest.id, hrest.addr, hrest.fd⟩, hmap⟩
    · cases hx

/-- A name that is told or registered has the handle, and nothing waits for it. -/
theorem update_remote_name_steady (hx : h.update_remote_name name handle attempts = some h') :
    h.Steady h' ∧ h'.map = Function.update h.map name ⟨handle, none⟩ := by
  unfold update_remote_name at hx
  cases hqueue : (h.map name).queue with
  | none =>
    rw [hqueue] at hx
    obtain rfl := Option.some.inj hx
    exact ⟨.same rfl rfl rfl, rfl⟩
  | some queue =>
    rw [hqueue] at hx
    obtain ⟨⟨h₁, queue₁⟩, hd, rfl⟩ := Option.map_eq_some_iff.mp hx
    unfold dispatch_queue at hd
    split at hd
    · cases hd
    cases hfd : h.remote_fd (harborOf handle) with
    | none =>
      simp only [hfd] at hd
      cases hd
      exact ⟨.same rfl rfl rfl, rfl⟩
    | some fd =>
      simp only [hfd] at hd
      obtain ⟨hsteady, hmap⟩ := dispatch_loop_steady
        (h := { h with map := Function.update h.map name ⟨handle, none⟩ })
        (show (h.remote_fd _).isSome by rw [hfd]; rfl) hd
      exact ⟨⟨hsteady.id, hsteady.addr, hsteady.fd⟩, hmap⟩

theorem remote_send_handle_steady {fate : Fate}
    (hx : h.remote_send_handle handle attempt = some (h', fate)) :
    h.Steady h' ∧ h'.map = h.map := by
  unfold remote_send_handle at hx
  split at hx
  · cases hx
  split at hx
  · cases hx
    exact ⟨.same rfl rfl rfl, rfl⟩
  split at hx
  · rename_i fd hfd
    split at hx
    · obtain ⟨h₁, hre, heq⟩ := Option.map_eq_some_iff.mp hx
      cases heq
      exact reconnect_steady (by rw [hfd]; rfl) hre
    · split at hx
      · cases hx
      · cases hx
        exact ⟨.same rfl rfl rfl, rfl⟩
  · cases hx
    exact ⟨.same rfl rfl rfl, rfl⟩

/-- A message to a name changes the table only where it waits. -/
theorem remote_send_name_steady {msg : μ} (hx : h.remote_send_name name msg attempt = some h') :
    h.Steady h' ∧ (((h.map name).value = 0 ∧
        ∃ queue, h'.map = Function.update h.map name ⟨0, some queue⟩) ∨
      (h.map name).value ≠ 0 ∧ h'.map = h.map) := by
  unfold remote_send_name at hx
  dsimp only at hx
  split at hx
  · rename_i hvalue
    obtain rfl := Option.some.inj hx
    refine ⟨.same rfl rfl rfl, .inl ⟨hvalue,
      ((h.map name).queue.getD MsgQueue.new_queue).push_queue msg, ?_⟩⟩
    rw [← hvalue]
  · rename_i hvalue
    obtain ⟨⟨h₁, fate⟩, hsend, rfl⟩ := Option.map_eq_some_iff.mp hx
    obtain ⟨hsteady, hmap⟩ := remote_send_handle_steady hsend
    exact ⟨⟨hsteady.id, hsteady.addr, hsteady.fd⟩, .inr ⟨hvalue, hmap⟩⟩

/-- The address that a connection of the harbor goes to. -/
def view (h : HarborState (List ℕ) μ) (i : ℕ) : Option Addr :=
  if (h.remote_fd i).isSome then h.remote_addr i else none

theorem Steady.view (hs : h.Steady h') (i : ℕ) : h'.view i = h.view i ∨ h'.view i = none := by
  unfold HarborState.view
  rw [hs.addr]
  cases hi : h.remote_fd i with
  | none =>
    rw [hs.fd i hi]
    exact .inr rfl
  | some fd =>
    cases h'.remote_fd i with
    | none => exact .inr rfl
    | some fd' => exact .inl rfl

/-- The entry of a harbor is connected to an address, or to none. -/
theorem connect_to_view (hx : h.connect_to i addr connect = some h') :
    h'.id = h.id ∧ h'.map = h.map ∧
      (({ h' with remote_addr := Function.update h'.remote_addr i (some addr) } :
        HarborState (List ℕ) μ).view i = some addr ∨ h'.remote_fd i = none) ∧
      h'.remote_addr = h.remote_addr ∧ ∀ j, j ≠ i → h'.remote_fd j = h.remote_fd j := by
  unfold connect_to at hx
  cases connect with
  | none =>
    obtain rfl := Option.some.inj hx
    exact ⟨rfl, rfl, .inr (Function.update_self ..), rfl, fun j hj => Function.update_of_ne hj _ _⟩
  | some fd =>
    obtain ⟨-, hst⟩ := Option.ite_none_right_eq_some.mp hx
    obtain rfl := Option.some.inj hst
    refine ⟨rfl, rfl, .inl ?_, rfl, fun j hj => Function.update_of_ne hj _ _⟩
    unfold HarborState.view
    simp only [Function.update_self]
    rfl

/-- An address that is told: there is a connection to it, or none. -/
theorem update_remote_address_spec (hx : h.update_remote_address i addr connect = some h') :
    h'.id = h.id ∧ h'.map = h.map ∧ (i ≠ h.id → h'.view i = some addr ∨ h'.view i = none) ∧
      ∀ j, j ≠ i → h'.view j = h.view j := by
  unfold update_remote_address at hx
  split at hx
  · rename_i hself
    cases hx
    exact ⟨rfl, rfl, fun hne => absurd hself hne, fun _ _ => rfl⟩
  split at hx
  on_goal 2 => cases hx
  -- the entry that is given up, and the one that is made
  have hmade : ∀ h₀ : HarborState (List ℕ) μ, h₀.id = h.id → h₀.map = h.map →
      (∀ j, j ≠ i → h₀.remote_fd j = h.remote_fd j ∧ h₀.remote_addr j = h.remote_addr j) →
      ((h₀.connect_to i addr connect).map fun h =>
        if (h.remote_fd i).isSome then
          { h with remote_addr := Function.update h.remote_addr i (some addr) }
        else h) = some h' →
      h'.id = h.id ∧ h'.map = h.map ∧ (i ≠ h.id → h'.view i = some addr ∨ h'.view i = none) ∧
        ∀ j, j ≠ i → h'.view j = h.view j := by
    intro h₀ hid hmap hothers hx
    obtain ⟨h₁, hc, rfl⟩ := Option.map_eq_some_iff.mp hx
    obtain ⟨hid', hmap', hview, haddr, hfd⟩ := connect_to_view hc
    cases hsome : h₁.remote_fd i with
    | none =>
      refine ⟨hid'.trans hid, hmap'.trans hmap, fun _ => .inr ?_, fun j hj => ?_⟩
      · show h₁.view i = none
        unfold HarborState.view
        rw [hsome]
        rfl
      · show h₁.view j = h.view j
        unfold HarborState.view
        rw [haddr, hfd j hj, (hothers j hj).1, (hothers j hj).2]
    | some fd =>
      refine ⟨hid'.trans hid, hmap'.trans hmap, fun _ => .inl ?_, fun j hj => ?_⟩
      · exact hview.resolve_right (by rw [hsome]; simp)
      · show (if (h₁.remote_fd j).isSome then Function.update h₁.remote_addr i (some addr) j
          else none) = h.view j
        unfold HarborState.view
        rw [Function.update_of_ne hj, haddr, hfd j hj, (hothers j hj).1, (hothers j hj).2]
  cases hfd : h.remote_fd i with
  | none =>
    rw [hfd] at hx
    exact hmade h rfl rfl (fun _ _ => ⟨rfl, rfl⟩) hx
  | some fd =>
    rw [hfd] at hx
    exact hmade { h.close fd with remote_addr := Function.update h.remote_addr i none } rfl rfl
      (fun j hj => ⟨rfl, Function.update_of_ne hj _ _⟩) hx

/-- A step of the harbor's own. -/
theorem exec_steady {e : HarborEv (List ℕ) μ} (hx : h.exec e = some h') (hlocal : e.Local) :
    h.Steady h' := by
  cases e with
  | send_name n msg attempt =>
    exact (remote_send_name_steady (show h.remote_send_name n msg attempt = some h' from hx)).1
  | send_handle destination attempt =>
    obtain ⟨⟨h₁, fate⟩, hsend, rfl⟩ := Option.map_eq_some_iff.mp
      (show (h.remote_send_handle destination attempt).map Prod.fst = some h' from hx)
    exact (remote_send_handle_steady hsend).1
  | register_name n handle attempts =>
    change (if handle = 0 then some h else h.update_remote_name n handle attempts) = some h' at hx
    split at hx
    · cases hx
      exact .same rfl rfl rfl
    · exact (update_remote_name_steady hx).1
  | opened fd =>
    obtain ⟨-, hst⟩ := Option.ite_none_right_eq_some.mp
      (show (if _ then some _ else none) = some h' from hx)
    obtain rfl := Option.some.inj hst
    exact .same rfl rfl rfl
  | closed fd =>
    obtain ⟨-, hst⟩ := Option.ite_none_right_eq_some.mp
      (show (if _ then some _ else none) = some h' from hx)
    obtain rfl := Option.some.inj hst
    exact .same rfl rfl rfl
  | update_name | update_address => cases hlocal

theorem exec_toHarbor_id {p : Package} (hx : h.exec (p.toHarbor attempts connect) = some h') :
    h'.id = h.id := by
  unfold Package.toHarbor at hx
  split at hx
  · exact (update_remote_address_spec
      (show h.update_remote_address _ _ _ = some h' from hx)).1
  · exact (update_remote_name_steady (Option.ite_none_left_eq_some.mp
      (show (if _ then none else _) = some h' from hx)).2).1.id

end Names.HarborState

end DnServer.Harbor
