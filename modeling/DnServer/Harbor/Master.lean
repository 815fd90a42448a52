import DnServer.Lib.Transition

/-!
# The connections of the master

`service_master.c` keeps a descriptor and an address for each harbor. A broadcast
sends to all of them and connects anew where a send fails; the new descriptor
stays in a local variable.
-/

namespace DnServer.Harbor

open DnServer.Lib

/-- The number of harbors, `REMOTE_MAX` of `skynet_harbor.h`. -/
def MASTER_REMOTE_MAX : ℕ := 256

abbrev Addr := List Char

/-- What an open descriptor of the process is connected to. -/
inductive Peer
  | harbor (addr : Addr)
  /-- A descriptor of another part of the process. -/
  | other
  deriving DecidableEq, Repr

/-- `struct master`, with the descriptors that are open in the process. A `remote_fd` of -1
is `none`. -/
structure Master where
  remote_fd : ℕ → Option ℕ
  remote_addr : ℕ → Option Addr
  map : List ℕ → Option ℕ
  kernel : ℕ → Option Peer

/-- How a send to a harbor ends, and which descriptor `connect` gives if it is called. -/
structure Attempt where
  err : Bool
  connect : Option ℕ

namespace Master

/-- `master_create`, in a process with some descriptors of its own. -/
def create (kernel : ℕ → Option Peer) : Master where
  remote_fd := fun _ => none
  remote_addr := fun _ => none
  map := fun _ => none
  kernel := kernel

def close (m : Master) (fd : ℕ) : Master :=
  { m with kernel := Function.update m.kernel fd none }

/-- `_connect_to`; the kernel gives a descriptor that is not open. -/
def connect_to (m : Master) (addr : Addr) (fd : Option ℕ) : Option (Master × Option ℕ) :=
  match fd with
  | none => some (m, none)
  | some fd =>
    if ':' ∈ addr ∧ m.kernel fd = none then
      some ({ m with kernel := Function.update m.kernel fd (some (.harbor addr)) }, some fd)
    else none

/-- One round of the loop in `_broadcast`; a send to a closed descriptor fails. -/
def broadcast_to (attempt : ℕ → Attempt) (m : Master) (i : ℕ) : Option Master :=
  match m.remote_fd i with
  | none => some m
  | some fd =>
    if (attempt i).err then
      match m.remote_addr i with
      | none => none
      | some addr =>
        match (m.close fd).connect_to addr (attempt i).connect with
        | none => none
        | some (m', none) => some { m' with remote_fd := Function.update m'.remote_fd i none }
        -- the new descriptor is not recorded
        | some (m', some _) => some m'
    else if m.kernel fd = none then none
    else some m

/-- `_broadcast`. -/
def broadcast (m : Master) (attempt : ℕ → Attempt) : Option Master :=
  (List.range' 1 (MASTER_REMOTE_MAX - 1)).foldlM (broadcast_to attempt) m

/-- `_update_address` up to the broadcast, and whether it comes to that. -/
def register (m : Master) (harbor_id : ℕ) (addr : Addr) (fd : Option ℕ) : Option (Master × Bool) :=
  let m :=
    match m.remote_fd harbor_id with
    | none => m
    | some fd => { m.close fd with remote_fd := Function.update m.remote_fd harbor_id none }
  let m := { m with remote_addr := Function.update m.remote_addr harbor_id (some addr) }
  match m.connect_to addr fd with
  | none => none
  | some (m, none) => some (m, false)
  | some (m, some fd) =>
    some ({ m with remote_fd := Function.update m.remote_fd harbor_id (some fd) }, true)

end Master

/-- What reaches the master, and what other parts of the process do with descriptors. -/
inductive MasterEv
  | request_name (name : List ℕ) (attempt : ℕ → Attempt)
  | update_name (name : List ℕ) (handle : ℕ) (attempt : ℕ → Attempt)
  | update_address (harbor_id : ℕ) (addr : Addr) (fd : Option ℕ) (attempt : ℕ → Attempt)
  | opened (fd : ℕ)
  | closed (fd : ℕ)

namespace Master

/-- The state before the broadcast of an event, and how its sends and connects end. -/
def before (m : Master) : MasterEv → Option (Master × Option (ℕ → Attempt))
  | .request_name name attempt =>
    match m.map name with
    | none => some (m, none)
    | some _ => some (m, some attempt)
  | .update_name name handle attempt =>
    some ({ m with map := Function.update m.map name (some handle) }, some attempt)
  | .update_address harbor_id addr fd attempt =>
    if 0 < harbor_id ∧ harbor_id < MASTER_REMOTE_MAX then
      (m.register harbor_id addr fd).map fun r => (r.1, if r.2 then some attempt else none)
    else none
  | .opened fd =>
    if m.kernel fd = none then
      some ({ m with kernel := Function.update m.kernel fd (some .other) }, none)
    else none
  | .closed fd => if m.kernel fd = some .other then some (m.close fd, none) else none

/-- `_mainloop`. What `_update_address` sends behind the broadcast changes nothing here. -/
def exec (m : Master) (e : MasterEv) : Option Master :=
  (m.before e).bind fun r =>
    match r.2 with
    | none => some r.1
    | some attempt => r.1.broadcast attempt

def system : TSys Master MasterEv where
  init m := ∃ kernel, (∀ fd, kernel fd = none ∨ kernel fd = some .other) ∧ m = create kernel
  step m e m' := m.exec e = some m'

/-- Every descriptor in the table is an open connection to the harbor's current address. -/
def Connected (m : Master) : Prop :=
  ∀ i fd, m.remote_fd i = some fd → ∃ addr, m.remote_addr i = some addr ∧
    m.kernel fd = some (.harbor addr)

/-- Where a send fails and the connection is established again, the new descriptor has the
number of the one that was closed. -/
def SameNumber (m : Master) (attempt : ℕ → Attempt) : Prop :=
  ∀ i < MASTER_REMOTE_MAX, (attempt i).err = true →
    ∀ fd ∈ m.remote_fd i, ∀ fd' ∈ (attempt i).connect, fd' = fd

instance (m : Master) (attempt : ℕ → Attempt) : Decidable (m.SameNumber attempt) :=
  inferInstanceAs (Decidable (∀ i < MASTER_REMOTE_MAX, _ → ∀ fd ∈ _, ∀ fd' ∈ _, fd' = fd))

/-- The broadcast of the event is as in `SameNumber`. -/
def Careful (m : Master) (e : MasterEv) : Prop :=
  ∀ r ∈ m.before e, ∀ attempt ∈ r.2, r.1.SameNumber attempt

/-! ## The invariant -/

/-- The table is connected, and no descriptor is in it twice. -/
structure Sound (m : Master) : Prop where
  connected : m.Connected
  inj : ∀ i j fd, m.remote_fd i = some fd → m.remote_fd j = some fd → i = j

variable {m m' : Master} {i : ℕ} {fd : ℕ} {addr : Addr} {attempt : ℕ → Attempt}

theorem create_sound (kernel : ℕ → Option Peer) : (create kernel).Sound :=
  ⟨fun _ _ h => (Option.some_ne_none _ h.symm).elim, fun _ _ _ h => (Option.some_ne_none _ h.symm).elim⟩

/-- An entry of a table that was changed at `i` is the new one or an old one. -/
theorem of_update {f : ℕ → Option ℕ} {v : Option ℕ} {j : ℕ}
    (h : Function.update f i v j = some fd) : (j = i ∧ v = some fd) ∨ (j ≠ i ∧ f j = some fd) := by
  by_cases hji : j = i
  · subst hji
    exact .inl ⟨rfl, by rwa [Function.update_self] at h⟩
  · exact .inr ⟨hji, by rwa [Function.update_of_ne hji] at h⟩

/-- An entry is struck out, and its descriptor closed. -/
theorem Sound.drop (h : m.Sound) (hfd : m.remote_fd i = some fd) :
    ({ m.close fd with remote_fd := Function.update m.remote_fd i none } : Master).Sound where
  connected := by
    intro j fd' hj
    rcases of_update hj with ⟨-, hnone⟩ | ⟨hne, hj'⟩
    · cases hnone
    · obtain ⟨addr, haddr, hk⟩ := h.connected j fd' hj'
      have hfd' : fd' ≠ fd := by
        rintro rfl
        exact hne (h.inj j i fd' hj' hfd)
      exact ⟨addr, haddr, (Function.update_of_ne hfd' _ _).trans hk⟩
  inj := by
    intro j k fd' hj hk
    rcases of_update hj with ⟨-, hnone⟩ | ⟨-, hj'⟩
    · cases hnone
    · rcases of_update hk with ⟨-, hnone⟩ | ⟨-, hk'⟩
      · cases hnone
      · exact h.inj j k fd' hj' hk'

/-- A descriptor that was free is connected to the address of an entry and recorded. -/
theorem Sound.record (h : m.Sound) (hfree : m.kernel fd = none) :
    ({ m with
      remote_fd := Function.update m.remote_fd i (some fd)
      remote_addr := Function.update m.remote_addr i (some addr)
      kernel := Function.update m.kernel fd (some (.harbor addr)) } : Master).Sound := by
  -- the descriptor was in no entry
  have hnew : ∀ x, m.remote_fd x ≠ some fd := by
    intro x hx
    obtain ⟨_, -, hk⟩ := h.connected x fd hx
    rw [hfree] at hk
    cases hk
  constructor
  · intro j fd' hj
    rcases of_update hj with ⟨rfl, hfd⟩ | ⟨hne, hj'⟩
    · obtain rfl := Option.some.inj hfd
      exact ⟨addr, Function.update_self .., Function.update_self ..⟩
    · obtain ⟨addr', haddr, hk⟩ := h.connected j fd' hj'
      have hfd : fd' ≠ fd := by
        rintro rfl
        exact hnew j hj'
      exact ⟨addr', (Function.update_of_ne hne _ _).trans haddr,
        (Function.update_of_ne hfd _ _).trans hk⟩
  · intro j k fd' hj hk
    rcases of_update hj with ⟨rfl, hfd⟩ | ⟨-, hj'⟩ <;> rcases of_update hk with ⟨rfl, hfd'⟩ | ⟨-, hk'⟩
    · rfl
    · obtain rfl := Option.some.inj hfd
      exact absurd hk' (hnew k)
    · obtain rfl := Option.some.inj hfd'
      exact absurd hj' (hnew j)
    · exact h.inj j k fd' hj' hk'

/-- An entry without a descriptor may have any address. -/
theorem Sound.address (h : m.Sound) (hfd : m.remote_fd i = none) :
    ({ m with remote_addr := Function.update m.remote_addr i (some addr) } : Master).Sound where
  connected := by
    intro j fd hj
    have hji : j ≠ i := by
      rintro rfl
      rw [hfd] at hj
      cases hj
    obtain ⟨addr', haddr, hk⟩ := h.connected j fd hj
    exact ⟨addr', (Function.update_of_ne hji _ _).trans haddr, hk⟩
  inj := h.inj

/-- Other descriptors come and go. -/
theorem Sound.kernel {kernel : ℕ → Option Peer} (h : m.Sound)
    (hk : ∀ fd addr, m.kernel fd = some (.harbor addr) → kernel fd = some (.harbor addr)) :
    ({ m with kernel := kernel } : Master).Sound where
  connected := by
    intro i fd hi
    obtain ⟨addr, haddr, hold⟩ := h.connected i fd hi
    exact ⟨addr, haddr, hk fd addr hold⟩
  inj := h.inj

/-- A descriptor that leads to no harbor may change. -/
theorem Sound.kernel_other (h : m.Sound) {fd : ℕ}
    (hfd : ∀ addr, m.kernel fd ≠ some (.harbor addr)) (peer : Option Peer) :
    ({ m with kernel := Function.update m.kernel fd peer } : Master).Sound := by
  refine h.kernel fun fd' addr hk => ?_
  have hne : fd' ≠ fd := by
    rintro rfl
    exact hfd addr hk
  exact (Function.update_of_ne hne _ _).trans hk

/-! ## The steps -/

theorem connect_to_cases {r : Option ℕ} {c : Option ℕ} (h : m.connect_to addr c = some (m', r)) :
    (r = none ∧ m' = m) ∨ ∃ fd, c = some fd ∧ r = some fd ∧ m.kernel fd = none ∧
      m' = { m with kernel := Function.update m.kernel fd (some (.harbor addr)) } := by
  unfold connect_to at h
  cases c with
  | none =>
    cases h
    exact .inl ⟨rfl, rfl⟩
  | some fd =>
    dsimp only at h
    split at h
    · rename_i hfree
      cases h
      exact .inr ⟨fd, rfl, rfl, hfree.2, rfl⟩
    · cases h

/-- A round of the broadcast leaves the entry as it is, strikes it out, or closes its
descriptor and opens another one for the same address. -/
theorem broadcast_to_cases (h : m.broadcast_to attempt i = some m') :
    m' = m ∨ ∃ fd addr, m.remote_fd i = some fd ∧ m.remote_addr i = some addr ∧
      (attempt i).err = true ∧
        (m' = { m.close fd with remote_fd := Function.update m.remote_fd i none } ∨
          ∃ fd', (attempt i).connect = some fd' ∧ (m.close fd).kernel fd' = none ∧
            m' = { m with kernel :=
              Function.update (m.close fd).kernel fd' (some (.harbor addr)) }) := by
  unfold broadcast_to at h
  cases hfd : m.remote_fd i with
  | none =>
    rw [hfd] at h
    exact .inl (Option.some.inj h).symm
  | some fd =>
    rw [hfd] at h
    dsimp only at h
    split at h
    · rename_i herr
      cases haddr : m.remote_addr i with
      | none =>
        rw [haddr] at h
        cases h
      | some addr =>
        rw [haddr] at h
        dsimp only at h
        refine .inr ⟨fd, addr, rfl, rfl, herr, ?_⟩
        cases hc : (m.close fd).connect_to addr (attempt i).connect with
        | none =>
          rw [hc] at h
          cases h
        | some r =>
          obtain ⟨m₁, r⟩ := r
          rw [hc] at h
          rcases connect_to_cases hc with ⟨rfl, rfl⟩ | ⟨fd', hconnect, rfl, hfree, rfl⟩
          · exact .inl (Option.some.inj h).symm
          · exact .inr ⟨fd', hconnect, hfree, (Option.some.inj h).symm⟩
    · split at h
      · cases h
      · exact .inl (Option.some.inj h).symm

/-- The other entries stay. -/
theorem broadcast_to_entry (h : m.broadcast_to attempt i = some m') {j : ℕ} (hj : j ≠ i) :
    m'.remote_fd j = m.remote_fd j := by
  rcases broadcast_to_cases h with rfl | ⟨fd, addr, -, -, -, rfl | ⟨fd', -, -, rfl⟩⟩
  · rfl
  · exact Function.update_of_ne hj _ _
  · rfl

theorem Sound.broadcast_to (h : m.Sound) (hx : m.broadcast_to attempt i = some m')
    (hsame : (attempt i).err = true → ∀ fd ∈ m.remote_fd i, ∀ fd' ∈ (attempt i).connect, fd' = fd) :
    m'.Sound := by
  rcases broadcast_to_cases hx with rfl | ⟨fd, addr, hfd, haddr, herr, hcase⟩
  · exact h
  · rcases hcase with rfl | ⟨fd', hconnect, -, rfl⟩
    · exact h.drop hfd
    · -- the number is the old one, and so is the address
      obtain rfl : fd' = fd := hsame herr fd hfd fd' hconnect
      refine h.kernel ?_
      intro fd addr' hk
      by_cases hne : fd = fd'
      · subst hne
        obtain ⟨addr₁, haddr₁, hk₁⟩ := h.connected i fd hfd
        rw [haddr] at haddr₁
        obtain rfl := Option.some.inj haddr₁
        rw [hk] at hk₁
        rw [Function.update_self, hk₁]
      · rw [Function.update_of_ne hne]
        exact (Function.update_of_ne hne _ _).trans hk

/-- The rounds of the loop, each with an entry that no earlier round has touched. -/
theorem Sound.broadcast_rounds {l : List ℕ} (hl : l.Nodup) (h : m.Sound)
    (hx : l.foldlM (Master.broadcast_to attempt) m = some m')
    (hsame : ∀ i ∈ l, (attempt i).err = true →
      ∀ fd ∈ m.remote_fd i, ∀ fd' ∈ (attempt i).connect, fd' = fd) : m'.Sound := by
  induction l generalizing m with
  | nil =>
    obtain rfl := Option.some.inj hx
    exact h
  | cons i l ih =>
    rw [List.foldlM_cons] at hx
    obtain ⟨m₁, hround, hrest⟩ := Option.bind_eq_some_iff.mp hx
    obtain ⟨hi, hl⟩ := List.nodup_cons.mp hl
    refine ih hl (h.broadcast_to hround (hsame i (List.mem_cons_self ..))) hrest ?_
    intro j hj
    have hne : j ≠ i := fun heq => hi (heq ▸ hj)
    rw [broadcast_to_entry hround hne]
    exact hsame j (List.mem_cons_of_mem _ hj)

theorem Sound.broadcast (h : m.Sound) (hx : m.broadcast attempt = some m')
    (hsame : m.SameNumber attempt) : m'.Sound := by
  refine h.broadcast_rounds List.nodup_range' hx ?_
  intro i hi
  refine hsame i ?_
  rw [List.mem_range'_1] at hi
  exact hi.2

theorem Sound.register {b : Bool} {c : Option ℕ} (h : m.Sound)
    (hx : m.register i addr c = some (m', b)) : m'.Sound := by
  unfold Master.register at hx
  have hdropped : (match m.remote_fd i with
      | none => m
      | some fd => { m.close fd with remote_fd := Function.update m.remote_fd i none }).Sound ∧
      (match m.remote_fd i with
      | none => m
      | some fd => { m.close fd with remote_fd := Function.update m.remote_fd i none }).remote_fd i =
        none := by
    cases hfd : m.remote_fd i with
    | none => exact ⟨h, hfd⟩
    | some fd => exact ⟨h.drop hfd, Function.update_self ..⟩
  revert hx hdropped
  generalize (match m.remote_fd i with
      | none => m
      | some fd => { m.close fd with remote_fd := Function.update m.remote_fd i none }) = m₁
  intro hx hdropped
  dsimp only at hx
  split at hx
  · cases hx
  · rename_i m₂ hc
    cases hx
    rcases connect_to_cases hc with ⟨-, rfl⟩ | ⟨_, -, hr, -⟩
    · exact hdropped.1.address hdropped.2
    · cases hr
  · rename_i m₂ fd hc
    cases hx
    rcases connect_to_cases hc with ⟨hr, -⟩ | ⟨fd', -, hr, hfree, rfl⟩
    · cases hr
    · obtain rfl := Option.some.inj hr
      exact hdropped.1.record hfree

/-- The state before the broadcast of an event is sound. -/
theorem Sound.before {e : MasterEv} {r : Master × Option (ℕ → Attempt)} (h : m.Sound)
    (hx : m.before e = some r) : r.1.Sound := by
  cases e with
  | request_name name attempt =>
    unfold Master.before at hx
    dsimp only at hx
    split at hx <;> obtain rfl := Option.some.inj hx <;> exact h
  | update_name name handle attempt =>
    obtain rfl := Option.some.inj hx
    exact ⟨h.connected, h.inj⟩
  | update_address harbor_id addr fd attempt =>
    unfold Master.before at hx
    dsimp only at hx
    split at hx
    · obtain ⟨r₁, hr, rfl⟩ := Option.map_eq_some_iff.mp hx
      exact h.register hr
    · cases hx
  | opened fd =>
    unfold Master.before at hx
    dsimp only at hx
    split at hx
    · rename_i hfree
      obtain rfl := Option.some.inj hx
      exact h.kernel_other (fun addr hk => by rw [hfree] at hk; cases hk) _
    · cases hx
  | closed fd =>
    unfold Master.before at hx
    dsimp only at hx
    split at hx
    · rename_i hother
      obtain rfl := Option.some.inj hx
      exact h.kernel_other (fun addr hk => by rw [hother] at hk; cases hk) _
    · cases hx

theorem Sound.exec {e : MasterEv} (h : m.Sound) (hc : m.Careful e) (hx : m.exec e = some m') :
    m'.Sound := by
  obtain ⟨r, hbefore, hrest⟩ := Option.bind_eq_some_iff.mp hx
  have hr := h.before hbefore
  cases hattempt : r.2 with
  | none =>
    rw [hattempt] at hrest
    obtain rfl := Option.some.inj hrest
    exact hr
  | some attempt =>
    rw [hattempt] at hrest
    exact hr.broadcast hrest (hc r hbefore attempt hattempt)

/-- **The table is right as long as every new connection gets the number of the old one.** -/
theorem connected_of_careful (h : (system.restrict Careful).Reachable m) : m.Connected := by
  have hsound : (system.restrict Careful).Inductive Sound := by
    refine ⟨?_, ?_⟩
    · rintro m ⟨kernel, -, rfl⟩
      exact create_sound kernel
    · intro m e m' _ hm hstep
      exact hm.exec hstep.1 hstep.2
  exact (hsound.invariant m h).connected

instance (m : Master) (e : MasterEv) : Decidable (m.Careful e) :=
  inferInstanceAs (Decidable (∀ r ∈ m.before e, ∀ attempt ∈ r.2, r.1.SameNumber attempt))

/-- A harbor registers, a name is announced while its connection fails, and the descriptor that
`connect` gives then is `fd`. -/
def reconnect (fd : ℕ) : List MasterEv :=
  [.update_address 1 ['h', ':', '1'] (some 5) fun _ => ⟨false, none⟩,
    .update_name [97] 256 fun _ => ⟨true, some fd⟩]

theorem create_init : system.init (create fun _ => none) := ⟨_, fun _ => .inl rfl, rfl⟩

theorem connected_of_careful_reconnect :
    ∃ m : Master, m.remote_fd 1 = some 5 ∧ m.Connected := by
  obtain ⟨m, hreach, hm⟩ := TSys.reachable_of_exec (p := fun m : Master => m.remote_fd 1 == some 5)
    (TSys.restrictExec_step (T := system) (C := Careful) fun _ _ _ h => h) create_init
    (show ((TSys.execAll (TSys.restrictExec Careful exec) (create fun _ => none)
      (reconnect 5)).any _) = true by decide +kernel)
  exact ⟨m, by simpa using hm, connected_of_careful hreach⟩

/-- Where the number is another one, the table keeps a descriptor that is closed. -/
theorem reconnect_not_recorded : ¬ ∀ m, system.Reachable m → m.Connected := by
  intro hall
  obtain ⟨m, hreach, hm⟩ := TSys.reachable_of_exec
    (p := fun m : Master => m.remote_fd 1 == some 5 && m.kernel 5 == none)
    (fun _ _ _ h => h) create_init
    (show ((TSys.execAll exec (create fun _ => none) (reconnect 6)).any _) = true by decide +kernel)
  obtain ⟨hfd, hk⟩ : m.remote_fd 1 = some 5 ∧ m.kernel 5 = none := by simpa using hm
  obtain ⟨addr, -, hopen⟩ := hall m hreach 1 5 hfd
  rw [hk] at hopen
  cases hopen

end Master

end DnServer.Harbor
