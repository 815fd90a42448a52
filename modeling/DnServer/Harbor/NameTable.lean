import DnServer.Harbor.Telling
import DnServer.Lib.Chained

/-!
# The tables of names

`service_master.c` and `service_harbor.c` keep their names in hash tables of 4096
chains. A name is 16 bytes; its hash is taken over all of them, and two names are
compared up to the first `'\0'`. For names that are padded with it, as all are
that nodes send, the tables are maps from names to values.

* `table_is_map`, `hashmap_is_map`: both are instances of `Chained`; that two padded
  names with the same stem are equal is what the hash needs.
-/

namespace DnServer.Harbor

open DnServer.Lib Names

/-! ## Hashes and comparisons -/

def HASH_SIZE : ℕ := 4096

/-- `((uint32_t *)name)[k]`, the lowest byte first. -/
def word (name : List ℕ) (k : ℕ) : ℕ :=
  name.getD (4 * k) 0 + 256 * name.getD (4 * k + 1) 0 + 65536 * name.getD (4 * k + 2) 0 +
    16777216 * name.getD (4 * k + 3) 0

def name_hash (name : List ℕ) : ℕ :=
  word name 0 ^^^ word name 1 ^^^ word name 2 ^^^ word name 3

/-- Whether `strncmp` is 0, of at most `n` bytes. -/
def strncmp : ℕ → List ℕ → List ℕ → Bool
  | 0, _, _ => true
  | _ + 1, [], [] => true
  | n + 1, a :: as, b :: bs => a == b && (a == 0 || strncmp n as bs)
  | _ + 1, _, _ => false

/-- The tables of both. -/
def names : Hashing (List ℕ) where
  hash := name_hash
  size := HASH_SIZE
  same := strncmp GLOBALNAME_LENGTH

theorem strncmp_self (n : ℕ) (l : List ℕ) : strncmp n l l = true := by
  induction n generalizing l with
  | zero => rfl
  | succ n ih =>
    cases l with
    | nil => rfl
    | cons a l =>
      show (a == a && (a == 0 || strncmp n l l)) = true
      rw [ih, Bool.or_true, beq_self_eq_true]
      rfl

/-- Names that compare as equal have the same bytes before the first `'\0'`. -/
theorem stem_of_strncmp {n : ℕ} {l l' : List ℕ} (h : strncmp n l l' = true) (hl : l.length ≤ n)
    (hl' : l'.length ≤ n) : stem l = stem l' := by
  induction n generalizing l l' with
  | zero =>
    obtain rfl : l = [] := List.length_eq_zero_iff.mp (by omega)
    obtain rfl : l' = [] := List.length_eq_zero_iff.mp (by omega)
    rfl
  | succ n ih =>
    cases l with
    | nil =>
      cases l' with
      | nil => rfl
      | cons b l' => cases h
    | cons a l =>
      cases l' with
      | nil => cases h
      | cons b l' =>
        rw [List.length_cons] at hl hl'
        obtain ⟨hab, hrest⟩ := (Bool.and_eq_true _ _).mp (show (_ && _) = true from h)
        obtain rfl := beq_iff_eq.mp hab
        rcases (Bool.or_eq_true _ _).mp hrest with hzero | hrest
        · obtain rfl := beq_iff_eq.mp hzero
          rfl
        · unfold stem at ih ⊢
          rw [List.takeWhile_cons, List.takeWhile_cons, ih hrest (by omega) (by omega)]

/-- Padded names are told apart. -/
theorem names_tells : names.Tells Padded := by
  intro a b ha hb
  have hlength : ∀ c, Padded c → c.length ≤ GLOBALNAME_LENGTH := by
    intro c hc
    have hc : copy_name (stem c) = c := hc
    rw [← hc, length_copy_name]
  constructor
  · intro h
    have ha' : copy_name (stem a) = a := ha
    have hb' : copy_name (stem b) = b := hb
    rw [← ha', ← hb', stem_of_strncmp h (hlength a ha) (hlength b hb)]
  · rintro rfl
    exact strncmp_self _ _

/-! ## The master -/

namespace Master

/-- What an event does to the table of the master: `_update_name` makes the node of the name if
there is none, with the value 0, and then sets its value. -/
def tabled (t : Chains (List ℕ) ℕ) : MasterEv → Chains (List ℕ) ℕ
  | .update_name name handle _ => names.upsert t name 0 fun _ => handle
  | _ => t

/-- The event is about no name that is not padded. -/
def PaddedEv : MasterEv → Prop
  | .update_name name _ _ => Padded name
  | _ => True

instance : ∀ e : MasterEv, Decidable (PaddedEv e)
  | .update_name name _ _ => inferInstanceAs (Decidable (Padded name))
  | .request_name _ _ | .update_address _ _ _ _ | .opened _ | .closed _ =>
    inferInstanceAs (Decidable True)

/-- The master with its table of names. -/
def tables : TSys (Master × Chains (List ℕ) ℕ) MasterEv :=
  (system.observe (fun _ _ => []) fun _ e _ t => tabled t e).restrict fun _ e => PaddedEv e

variable {m m' : Master} {e : MasterEv} {t : Chains (List ℕ) ℕ}

/-- Only a name that is registered changes the map. -/
theorem exec_map (hx : m.exec e = some m') (name : List ℕ) (handle : ℕ) (attempt : ℕ → Attempt) :
    (e = .update_name name handle attempt → m'.map = Function.update m.map name (some handle)) ∧
      ((∀ name handle attempt, e ≠ .update_name name handle attempt) → m'.map = m.map) := by
  obtain ⟨r, hb, -⟩ := Option.bind_eq_some_iff.mp hx
  have hmap : m'.map = r.1.map := by
    rcases exec_cases hb hx with ⟨-, rfl⟩ | ⟨_, -, hs⟩
    · rfl
    · exact hs.map
  rw [hmap]
  refine ⟨?_, fun hnot => ?_⟩
  · rintro rfl
    obtain rfl := Option.some.inj hb
    rfl
  · cases e with
    | request_name name attempt =>
      unfold before at hb
      dsimp only at hb
      split at hb <;> obtain rfl := Option.some.inj hb <;> rfl
    | update_name name handle attempt => exact absurd rfl (hnot name handle attempt)
    | update_address harbor_id addr fd attempt =>
      obtain ⟨-, hb⟩ := Option.ite_none_right_eq_some.mp hb
      obtain ⟨⟨m₁, b⟩, hreg, rfl⟩ := Option.map_eq_some_iff.mp hb
      exact (register_spec hreg).1
    | opened fd =>
      obtain ⟨-, hst⟩ := Option.ite_none_right_eq_some.mp hb
      obtain rfl := Option.some.inj hst
      rfl
    | closed fd =>
      obtain ⟨-, hst⟩ := Option.ite_none_right_eq_some.mp hb
      obtain rfl := Option.some.inj hst
      rfl

/-- The table holds what the map has. -/
structure Tabled (m : Master) (t : Chains (List ℕ) ℕ) : Prop where
  sound : names.Sound Padded t
  lookup : ∀ name, Padded name → names.lookup t name = m.map name

theorem Tabled.step (h : m.Tabled t) (hpadded : PaddedEv e) (hx : m.exec e = some m') :
    m'.Tabled (tabled t e) := by
  cases e with
  | update_name name handle attempt =>
    have hmap := (exec_map hx name handle attempt).1 rfl
    refine ⟨h.sound.upsert names_tells hpadded _ _, fun name' hname' => ?_⟩
    rw [hmap]
    refine (h.sound.lookup_upsert names_tells hpadded hname' 0 _).trans ?_
    by_cases hne : name' = name
    · subst hne
      rw [if_pos rfl, Function.update_self]
    · rw [if_neg hne, Function.update_of_ne hne]
      exact h.lookup name' hname'
  | request_name | update_address | opened | closed =>
    have hmap := (exec_map hx [] 0 fun _ => ⟨false, none⟩).2 (by simp)
    exact ⟨h.sound, fun name' hname' => (h.lookup name' hname').trans (congrFun hmap name').symm⟩

/-- **The table of the master is its map.** After any run, however names share hashes and chains,
a search for a name finds the handle that was registered last, and no name has two nodes. -/
theorem table_is_map (h : tables.Reachable (m, t)) :
    (∀ name, Padded name → names.lookup t name = m.map name) ∧
      ∀ b, ((t b).map HashNode.key).Nodup := by
  have hinv : tables.Inductive fun p => p.1.Tabled p.2 := by
    refine ⟨?_, ?_⟩
    · rintro ⟨m, t⟩ ⟨⟨kernel, -, hm⟩, ht⟩
      obtain rfl : m = create kernel := hm
      obtain rfl : t = fun _ => [] := ht
      exact ⟨Hashing.sound_empty, fun _ _ => rfl⟩
    · rintro ⟨m, t⟩ e ⟨m', t'⟩ - hp ⟨hpadded, hx, ht⟩
      obtain rfl : t' = tabled t e := ht
      exact hp.step hpadded hx
  have htabled := hinv.invariant _ h
  exact ⟨htabled.lookup, htabled.sound.nodup⟩

/-- Two names of one hash. -/
theorem table_is_map_shared : ∃ (m : Master) (t : Chains (List ℕ) ℕ), tables.Reachable (m, t) ∧
    name_hash (copy_name [97]) = name_hash (copy_name [1, 1, 1, 1, 96, 1, 1, 1]) ∧
    names.lookup t (copy_name [97]) = some 256 ∧
    names.lookup t (copy_name [1, 1, 1, 1, 96, 1, 1, 1]) = some 257 := by
  obtain ⟨⟨m, t⟩, hreach, hp⟩ := TSys.reachable_of_exec (T := tables)
    (p := fun s => decide (s.1.map (copy_name [97]) = some 256 ∧
      s.1.map (copy_name [1, 1, 1, 1, 96, 1, 1, 1]) = some 257))
    (TSys.restrictExec_step (TSys.observeExec_step (T := system) fun _ _ _ hx => hx))
    (s := (create fun _ => none, fun _ => [])) ⟨create_init, rfl⟩
    (l := [.update_name (copy_name [97]) 255 fun _ => ⟨false, none⟩,
      .update_name (copy_name [1, 1, 1, 1, 96, 1, 1, 1]) 257 fun _ => ⟨false, none⟩,
      .update_name (copy_name [97]) 256 fun _ => ⟨false, none⟩]) (by decide +kernel)
  obtain ⟨h₁, h₂⟩ := of_decide_eq_true hp
  obtain ⟨hlookup, -⟩ := table_is_map hreach
  exact ⟨m, t, hreach, by decide, (hlookup _ (by decide)).trans h₁,
    (hlookup _ (by decide)).trans h₂⟩

end Master

/-! ## The harbor -/

namespace Names.HarborState

variable {μ : Type}

/-- What an event does to the table of the harbor. -/
def tabled (t : Chains (List ℕ) (Keyvalue μ)) : HarborEv (List ℕ) μ → Chains (List ℕ) (Keyvalue μ)
  | .send_name name msg _ => names.upsert t name ⟨0, none⟩ fun kv =>
    if kv.value = 0 then
      { kv with queue := some ((kv.queue.getD MsgQueue.new_queue).push_queue msg) }
    else kv
  | .register_name name handle _ =>
    if handle = 0 then t else names.upsert t name ⟨0, none⟩ fun _ => ⟨handle, none⟩
  | .update_name name handle _ => names.upsert t name ⟨0, none⟩ fun _ => ⟨handle, none⟩
  | .send_handle _ _ | .update_address _ _ _ | .opened _ | .closed _ => t

/-- The event is about no name that is not padded. -/
def PaddedEv : HarborEv (List ℕ) μ → Prop
  | .send_name name _ _ | .register_name name _ _ | .update_name name _ _ => Padded name
  | .send_handle _ _ | .update_address _ _ _ | .opened _ | .closed _ => True

instance : ∀ e : HarborEv (List ℕ) μ, Decidable (PaddedEv e)
  | .send_name name _ _ | .register_name name _ _ | .update_name name _ _ =>
    inferInstanceAs (Decidable (Padded name))
  | .send_handle _ _ | .update_address _ _ _ | .opened _ | .closed _ =>
    inferInstanceAs (Decidable True)

/-- A harbor with its table of names. -/
def tables : TSys (HarborState (List ℕ) μ × Chains (List ℕ) (Keyvalue μ)) (HarborEv (List ℕ) μ) :=
  (system.observe (fun _ _ => []) fun _ e _ t => tabled t e).restrict fun _ e => PaddedEv e

variable {h h' : HarborState (List ℕ) μ} {e : HarborEv (List ℕ) μ}
  {t : Chains (List ℕ) (Keyvalue μ)}

/-- The table holds what the map has; a name without a node has no value and no queue. -/
structure Tabled (h : HarborState (List ℕ) μ) (t : Chains (List ℕ) (Keyvalue μ)) : Prop where
  sound : names.Sound Padded t
  lookup : ∀ name, Padded name → (names.lookup t name).getD ⟨0, none⟩ = h.map name

/-- One node is made or changed. -/
theorem Tabled.upsert (h₀ : h.Tabled t) {name : List ℕ} (hname : Padded name)
    {f : Keyvalue μ → Keyvalue μ}
    (hmap : h'.map = Function.update h.map name (f (h.map name))) :
    h'.Tabled (names.upsert t name ⟨0, none⟩ f) := by
  refine ⟨h₀.sound.upsert names_tells hname _ _, fun name' hname' => ?_⟩
  rw [h₀.sound.lookup_upsert names_tells hname hname', hmap]
  by_cases hne : name' = name
  · subst hne
    rw [if_pos rfl, Function.update_self, h₀.lookup name' hname']
    rfl
  · rw [if_neg hne, Function.update_of_ne hne]
    exact h₀.lookup name' hname'

theorem Tabled.of_map (h₀ : h.Tabled t) (hmap : h'.map = h.map) : h'.Tabled t :=
  ⟨h₀.sound, fun name hname => (h₀.lookup name hname).trans (congrFun hmap name).symm⟩

theorem Tabled.step (h₀ : h.Tabled t) (hpadded : PaddedEv e) (hx : h.exec e = some h') :
    h'.Tabled (tabled t e) := by
  cases e with
  | send_name name msg attempt =>
    refine h₀.upsert hpadded ?_
    have hx : h.remote_send_name name msg attempt = some h' := hx
    unfold remote_send_name at hx
    dsimp only at hx
    by_cases hvalue : (h.map name).value = 0
    · rw [if_pos hvalue] at hx
      obtain rfl := Option.some.inj hx
      rw [if_pos hvalue]
    · rw [if_neg hvalue] at hx
      obtain ⟨⟨h₁, fate⟩, hsend, rfl⟩ := Option.map_eq_some_iff.mp hx
      rw [if_neg hvalue, Function.update_eq_self]
      exact (remote_send_handle_steady hsend).2
  | register_name name handle attempts =>
    have hx : (if handle = 0 then some h else h.update_remote_name name handle attempts) =
      some h' := hx
    unfold tabled
    dsimp only
    by_cases hzero : handle = 0
    · rw [if_pos hzero] at hx
      obtain rfl := Option.some.inj hx
      rw [if_pos hzero]
      exact h₀
    · rw [if_neg hzero] at hx
      rw [if_neg hzero]
      exact h₀.upsert hpadded (update_remote_name_steady hx).2
  | update_name name handle attempts =>
    exact h₀.upsert hpadded (update_remote_name_steady
      (Option.ite_none_left_eq_some.mp (show (if _ then none else _) = some h' from hx)).2).2
  | send_handle destination attempt =>
    obtain ⟨⟨h₁, fate⟩, hsend, rfl⟩ := Option.map_eq_some_iff.mp
      (show (h.remote_send_handle destination attempt).map Prod.fst = some h' from hx)
    exact h₀.of_map (remote_send_handle_steady hsend).2
  | update_address harbor_id ipaddr connect =>
    exact h₀.of_map (update_remote_address_spec
      (show h.update_remote_address _ _ _ = some h' from hx)).2.1
  | opened fd =>
    obtain ⟨-, hst⟩ := Option.ite_none_right_eq_some.mp
      (show (if _ then some _ else none) = some h' from hx)
    obtain rfl := Option.some.inj hst
    exact h₀.of_map rfl
  | closed fd =>
    obtain ⟨-, hst⟩ := Option.ite_none_right_eq_some.mp
      (show (if _ then some _ else none) = some h' from hx)
    obtain rfl := Option.some.inj hst
    exact h₀.of_map rfl

/-- **The table of a harbor is its map.** After any run, a search for a name finds its value and
the queue of what waits for it, and no name has two nodes. -/
theorem hashmap_is_map (hreach : tables.Reachable (h, t)) :
    (∀ name, Padded name → (names.lookup t name).getD ⟨0, none⟩ = h.map name) ∧
      ∀ b, ((t b).map HashNode.key).Nodup := by
  have hinv : (tables (μ := μ)).Inductive fun p => p.1.Tabled p.2 := by
    refine ⟨?_, ?_⟩
    · rintro ⟨h, t⟩ ⟨⟨id, kernel, -, hh⟩, ht⟩
      obtain rfl : h = create id kernel := hh
      obtain rfl : t = fun _ => [] := ht
      exact ⟨Hashing.sound_empty, fun _ _ => rfl⟩
    · rintro ⟨h, t⟩ e ⟨h', t'⟩ - hp ⟨hpadded, hx, ht⟩
      obtain rfl : t' = tabled t e := ht
      exact hp.step hpadded hx
  have htabled := hinv.invariant _ hreach
  exact ⟨htabled.lookup, htabled.sound.nodup⟩

/-- A message waits for one name, and another name of the same hash is told. -/
theorem hashmap_is_map_shared : ∃ (h : HarborState (List ℕ) ℕ) (t : Chains (List ℕ) (Keyvalue ℕ)),
    tables.Reachable (h, t) ∧
    ((names.lookup t (copy_name [97])).getD ⟨0, none⟩).value = 0x02000009 ∧
    ((names.lookup t (copy_name [1, 1, 1, 1, 96, 1, 1, 1])).getD ⟨0, none⟩).queue.isSome =
      true := by
  obtain ⟨⟨h, t⟩, hreach, hp⟩ := TSys.reachable_of_exec (T := tables)
    (p := fun s : HarborState (List ℕ) ℕ × Chains (List ℕ) (Keyvalue ℕ) =>
      decide ((s.1.map (copy_name [97])).value = 0x02000009 ∧
        (s.1.map (copy_name [1, 1, 1, 1, 96, 1, 1, 1])).queue.isSome = true))
    (TSys.restrictExec_step (TSys.observeExec_step (T := system) fun _ _ _ hx => hx))
    (s := (create 1 fun _ => none, fun _ => [])) ⟨⟨1, _, fun _ => .inl rfl, rfl⟩, rfl⟩
    (l := [.send_name (copy_name [1, 1, 1, 1, 96, 1, 1, 1]) 40 ⟨false, none⟩,
      .update_name (copy_name [97]) 0x02000009 []]) (by decide +kernel)
  obtain ⟨h₁, h₂⟩ := of_decide_eq_true hp
  obtain ⟨hlookup, -⟩ := hashmap_is_map hreach
  refine ⟨h, t, hreach, ?_, ?_⟩
  · rw [hlookup _ (by decide)]
    exact h₁
  · rw [hlookup _ (by decide)]
    exact h₂

end Names.HarborState

end DnServer.Harbor
