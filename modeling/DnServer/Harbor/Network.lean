import DnServer.Harbor.Delivery
import DnServer.Lib.Latest

/-!
# The harbors and their master

A harbor reports its address to the master when it starts, and a name when a
service registers one; for a name it does not know it asks. The master keeps what
it is told and tells it to all harbors that it has a connection to. What goes
either way are packages of a handle and some bytes: whether they are a name or an
address is told from the handle alone.
-/

namespace DnServer.Harbor

open DnServer.Lib Names

/-! ## Packages -/

def GLOBALNAME_LENGTH : ℕ := 16

/-- The bytes before the first `'\0'`. -/
def stem (name : List ℕ) : List ℕ := name.takeWhile (· ≠ 0)

/-- `_copy_name` of `service_master.c`. -/
def copy_name (buffer : List ℕ) : List ℕ :=
  if buffer.length < GLOBALNAME_LENGTH then
    buffer ++ List.replicate (GLOBALNAME_LENGTH - buffer.length) 0
  else buffer.take GLOBALNAME_LENGTH

/-- `_copy_name` of `skynet_server.c`: the names of a node come from here. -/
def global_name (addr : List ℕ) : List ℕ :=
  let name := (stem addr).take GLOBALNAME_LENGTH
  name ++ List.replicate (GLOBALNAME_LENGTH - name.length) 0

/-- A name of a node: behind its first `'\0'` it has no other bytes. -/
def Padded (name : List ℕ) : Prop := copy_name (stem name) = name

instance (name : List ℕ) : Decidable (Padded name) := inferInstanceAs (Decidable (_ = _))

/-- What a harbor and the master write to each other: a handle and some bytes. -/
structure Package where
  handle : BitVec 32
  body : List ℕ
  deriving DecidableEq

def addrOf (body : List ℕ) : Addr := body.map Char.ofNat

def bytesOf (addr : Addr) : List ℕ := addr.map Char.toNat

/-- A handle below `REMOTE_MAX` is the number of a harbor, and 0 is none. -/
def harbor_handle (harbor_id : ℕ) : BitVec 32 := BitVec.ofNat 32 harbor_id

namespace Package

/-- `_mainloop` of the master, for a package; `fd` is what `connect` gives. -/
def toMaster (p : Package) (fd : Option ℕ) (attempt : ℕ → Attempt) : MasterEv :=
  if p.handle = 0 then .request_name (copy_name p.body) attempt
  else if p.handle.toNat < REMOTE_MAX then
    .update_address p.handle.toNat (addrOf p.body) fd attempt
  else .update_name (copy_name p.body) p.handle.toNat attempt

/-- `_mainloop` of a harbor, for a package of the master. -/
def toHarbor {μ : Type} (p : Package) (attempts : List Attempt) (connect : Option ℕ) :
    HarborEv (List ℕ) μ :=
  if p.handle.toNat < REMOTE_MAX then .update_address p.handle.toNat (addrOf p.body) connect
  else .update_name p.body p.handle attempts

end Package

/-! ## What is written -/

namespace Names.HarborState

variable {μ : Type}

/-- What `_remote_send_handle` has to ask the master. -/
def asksFor (h : HarborState (List ℕ) μ) (destination : BitVec 32) : List Package :=
  if harborOf destination ≠ h.id ∧ h.remote_fd (harborOf destination) = none then
    -- there is no address in it
    [⟨harbor_handle (harborOf destination), []⟩]
  else []

/-- The calls of `_request_master`. -/
def requests (h : HarborState (List ℕ) μ) : HarborEv (List ℕ) μ → List Package
  | .send_name name _ _ =>
    if (h.map name).value = 0 then [⟨0, stem name⟩] else h.asksFor (h.map name).value
  | .send_handle destination _ => h.asksFor destination
  | .register_name name handle _ => [⟨handle, stem name⟩]
  | _ => []

/-- The event is a message for harbor `j`, under a handle or under a name that is known. -/
def MessageFor (h : HarborState (List ℕ) μ) (j : ℕ) : HarborEv (List ℕ) μ → Prop
  | .send_handle destination _ => harborOf destination = j
  | .send_name name _ _ => (h.map name).value ≠ 0 ∧ harborOf (h.map name).value = j
  | _ => False

end Names.HarborState

/-- What comes from the node of a harbor itself, under a name that was copied. -/
def Names.HarborEv.Local {μ : Type} : HarborEv (List ℕ) μ → Prop
  | .send_name name _ _ => Padded name
  | .register_name name _ _ => Padded name
  | .send_handle _ _ | .opened _ | .closed _ => True
  | .update_name _ _ _ | .update_address _ _ _ => False

instance {μ : Type} : ∀ e : HarborEv (List ℕ) μ, Decidable e.Local
  | .send_name name _ _ => inferInstanceAs (Decidable (Padded name))
  | .register_name name _ _ => inferInstanceAs (Decidable (Padded name))
  | .send_handle _ _ | .opened _ | .closed _ => inferInstanceAs (Decidable True)
  | .update_name _ _ _ | .update_address _ _ _ => inferInstanceAs (Decidable False)

namespace Master

/-- What `_broadcast` tells. -/
def news (m : Master) : MasterEv → Option Package
  | .request_name name _ => (m.map name).map fun value => ⟨BitVec.ofNat 32 value, name⟩
  | .update_name name handle _ => some ⟨BitVec.ofNat 32 handle, name⟩
  | .update_address harbor_id addr _ _ => some ⟨harbor_handle harbor_id, bytesOf addr⟩
  | .opened _ | .closed _ => none

/-- Whether `_broadcast` writes to the harbor. -/
def reaches (m : Master) (attempt : ℕ → Attempt) (i : ℕ) : Bool :=
  (m.remote_fd i).isSome && !(attempt i).err

/-- What `_update_address` sends behind the broadcast: the addresses of the others. -/
def others (m : Master) (harbor_id : ℕ) : List Package :=
  ((List.range' 1 (REMOTE_MAX - 1)).filter (· ≠ harbor_id)).filterMap fun i =>
    (m.remote_addr i).map fun addr => ⟨harbor_handle i, bytesOf addr⟩

/-- The addresses of the others go to the harbor that reports its own. -/
def greeting (m : Master) (i : ℕ) : MasterEv → List Package
  | .update_address harbor_id _ _ _ => if i = harbor_id then m.others harbor_id else []
  | _ => []

/-- What a harbor is sent for an event; the state `r.1` is the one before the broadcast. -/
def sends (m : Master) (e : MasterEv) (r : Master × Option (ℕ → Attempt)) (i : ℕ) :
    List Package :=
  match r.2 with
  | none => []
  | some attempt =>
    (if r.1.reaches attempt i then (m.news e).toList else []) ++ r.1.greeting i e

end Master

/-! ## The network -/

/-- The connections of a harbor with the master. -/
inductive Link
  /-- The harbor has not reported its address, or the report is on the way. -/
  | fresh
  /-- The master has connected to it for its report. -/
  | joined
  /-- A write or a connection failed. -/
  | broken
  deriving DecidableEq, Repr

/-- Another address for a harbor; `own` when the harbor reports it, `connected` when the master
can connect to it. -/
def Link.readdressed (link : Link) (own connected : Bool) : Link :=
  match link, own, connected with
  | .fresh, true, true => .joined
  | .fresh, false, false => .fresh
  | _, _, _ => .broken

/-- The master, the harbors, and what is on the way between them. -/
structure Network (μ : Type) where
  master : Master
  harbor : ℕ → HarborState (List ℕ) μ
  started : ℕ → Bool
  up : ℕ → List Package
  down : ℕ → List Package
  link : ℕ → Link

inductive NetworkEv (μ : Type)
  | start (i : ℕ) (addr : Addr)
  /-- A step of a harbor that the master has no part in. -/
  | act (i : ℕ) (e : HarborEv (List ℕ) μ)
  /-- The master takes a package of a harbor, the first or, over a broken link, any. -/
  | report (i k : ℕ) (fd : Option ℕ) (attempt : ℕ → Attempt)
  /-- A harbor takes a package of the master. -/
  | tell (i k : ℕ) (attempts : List Attempt) (connect : Option ℕ)
  | breaks (i : ℕ)
  /-- Over a broken link packages are lost. -/
  | lose_up (i k : ℕ)
  | lose_down (i k : ℕ)
  /-- Another part of the master's process opens or closes a descriptor. -/
  | opened (fd : ℕ)
  | closed (fd : ℕ)

namespace Network

variable {μ : Type}

def create : Network μ where
  master := Master.create fun _ => none
  harbor := fun i => HarborState.create i fun _ => none
  started := fun _ => false
  up := fun _ => []
  down := fun _ => []
  link := fun _ => .fresh

/-- The links after an event of harbor `k`, as long as no write fails. -/
def addressed (s : Network μ) (k : ℕ) (e : MasterEv) (connected : Bool) (i : ℕ) : Link :=
  match e with
  | .update_address harbor_id _ _ _ =>
    if i = harbor_id then (s.link i).readdressed (k = harbor_id) connected else s.link i
  | _ => s.link i

/-- The links after the master has handled an event of harbor `k`. -/
def relinked (s : Network μ) (k : ℕ) (e : MasterEv) (r : Master × Option (ℕ → Attempt)) (i : ℕ) :
    Link :=
  match r.2 with
  | some attempt =>
    if (r.1.remote_fd i).isSome ∧ (attempt i).err = true then .broken
    else s.addressed k e true i
  | none => s.addressed k e false i

/-- The package is the first that is on the way, or the link is broken. -/
def InTurn (s : Network μ) (i k : ℕ) : Prop := k = 0 ∨ s.link i = .broken

instance (s : Network μ) (i k : ℕ) : Decidable (s.InTurn i k) :=
  inferInstanceAs (Decidable (_ ∨ _))

/-- The master handles a package of harbor `i`. -/
def report (s : Network μ) (i k : ℕ) (e : MasterEv) : Option (Network μ) :=
  (s.master.before e).bind fun r => (s.master.exec e).map fun m =>
    { s with
      master := m
      up := Function.update s.up i ((s.up i).eraseIdx k)
      down := fun j => s.down j ++ s.master.sends e r j
      link := s.relinked i e r }

/-- A step of a harbor. -/
def act (s : Network μ) (i : ℕ) (e : HarborEv (List ℕ) μ) : Option (Network μ) :=
  ((s.harbor i).exec e).map fun h =>
    { s with
      harbor := Function.update s.harbor i h
      up := Function.update s.up i (s.up i ++ (s.harbor i).requests e) }

def exec (s : Network μ) : NetworkEv μ → Option (Network μ)
  | .start i addr =>
    if s.started i = false ∧ 0 < i ∧ i < REMOTE_MAX then
      some { s with
        started := Function.update s.started i true
        up := Function.update s.up i (s.up i ++ [⟨harbor_handle i, bytesOf addr⟩]) }
    else none
  | .act i e => if s.started i = true ∧ e.Local then s.act i e else none
  | .report i k fd attempt =>
    if s.InTurn i k then
      (s.up i)[k]?.bind fun p => s.report i k (p.toMaster fd attempt)
    else none
  | .tell i k attempts connect =>
    if s.started i = true ∧ s.InTurn i k then
      (s.down i)[k]?.bind fun p =>
        { s with down := Function.update s.down i ((s.down i).eraseIdx k) }.act i
          (p.toHarbor attempts connect)
    else none
  | .breaks i => some { s with link := Function.update s.link i .broken }
  | .lose_up i k =>
    if s.link i = .broken then
      some { s with up := Function.update s.up i ((s.up i).eraseIdx k) }
    else none
  | .lose_down i k =>
    if s.link i = .broken then
      some { s with down := Function.update s.down i ((s.down i).eraseIdx k) }
    else none
  | .opened fd => (s.master.exec (.opened fd)).map fun m => { s with master := m }
  | .closed fd => (s.master.exec (.closed fd)).map fun m => { s with master := m }

def system : TSys (Network μ) (NetworkEv μ) where
  init s := s = create
  step s e s' := s.exec e = some s'

end Network

end DnServer.Harbor
