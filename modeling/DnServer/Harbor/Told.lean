import DnServer.Harbor.Telling

/-!
# What a harbor will have heard

A harbor has heard all when the packages that are on the way to it have come. Two
facts about it are kept by whatever it and the master do: the handles that it
will have are those that are known, and the addresses that it will be connected
to are those of the master.
-/

namespace DnServer.Harbor

open DnServer.Lib Names

variable {μ : Type} {m m' : Master} {h h' : HarborState (List ℕ) μ}
  {up up' down sends : List Package} {known known' : List ℕ → Option ℕ}
  {r : Master × Option (ℕ → Attempt)} {name : List ℕ} {p : Package} {fd : Option ℕ}
  {attempt : ℕ → Attempt} {i j k : ℕ}

/-! ## Names -/

/-- The handle that the harbor has for a name once it has heard all, is the one that is known, if
it does not register one itself; and what waits for a name is asked for, or about to be told, or
not known. -/
structure Told (known : List ℕ → Option ℕ) (h : HarborState (List ℕ) μ) (up down : List Package) :
    Prop where
  value : ∀ name, (∃ p ∈ up, p.Registers name) ∨
    (latest (Package.named name) (h.map name).value down).toNat < REMOTE_MAX ∨
    known name = some (latest (Package.named name) (h.map name).value down).toNat
  queue : ∀ name, (h.map name).queue.isSome → (∃ p ∈ up, p.Asks name) ∨
    (∃ p ∈ down, (p.named name).isSome) ∨ known name = none

/-- The name is told. -/
def Said (known : List ℕ → Option ℕ) (sends : List Package) (name : List ℕ) : Prop :=
  ∃ q value, sends = [q] ∧ q.named name = some value ∧ known name = some value.toNat

/-- Nothing is said about the name, and nothing was to be. -/
structure Silent (known known' : List ℕ → Option ℕ) (p : Package) (sends : List Package)
    (name : List ℕ) : Prop where
  unsaid : ∀ q ∈ sends, q.named name = none
  same : known' name = known name
  registers : ¬p.Registers name
  asks : p.Asks name → known name = none

/-- The master takes a package, perhaps one of this harbor. -/
theorem Told.handled (h₀ : Told known h up down) (hup : ∀ q ∈ up, q ∈ up' ∨ q = p)
    (hstep : ∀ name, Said known' sends name ∨ Silent known known' p sends name) :
    Told known' h up' (down ++ sends) where
  value := by
    intro name
    rcases hstep name with ⟨q, value, rfl, hnamed, hknown⟩ | hsilent
    · rw [latest_concat hnamed]
      exact .inr (.inr hknown)
    · rw [latest_append_of_silent hsilent.unsaid, hsilent.same]
      refine (h₀.value name).imp_left ?_
      rintro ⟨q, hq, hreg⟩
      rcases hup q hq with hq | rfl
      · exact ⟨q, hq, hreg⟩
      · exact absurd hreg hsilent.registers
  queue := by
    intro name hqueue
    rcases hstep name with ⟨q, value, rfl, hnamed, -⟩ | hsilent
    · exact .inr (.inl ⟨q, List.mem_append_right _ List.mem_cons_self, by rw [hnamed]; rfl⟩)
    · rw [hsilent.same]
      rcases h₀.queue name hqueue with ⟨q, hq, hasks⟩ | ⟨q, hq, hnamed⟩ | hnone
      · rcases hup q hq with hq | rfl
        · exact .inl ⟨q, hq, hasks⟩
        · exact .inr (.inr (hsilent.asks hasks))
      · exact .inr (.inl ⟨q, List.mem_append_left _ hq, hnamed⟩)
      · exact .inr (.inr hnone)

/-- What a package does not say. -/
theorem silent_of_small (hsmall : p.handle.toNat < REMOTE_MAX) (hne : p.handle ≠ 0)
    (hsends : ∀ q ∈ sends, q.handle.toNat < REMOTE_MAX) (hknown : known' = known)
    (name : List ℕ) : Silent known known' p sends name where
  unsaid := fun q hq => Package.named_eq_none (hsends q hq)
  same := by rw [hknown]
  registers := fun hreg => absurd hreg.1 (by omega)
  asks := fun hasks => absurd hasks.1 hne

theorem greeting_small {e : MasterEv} {q : Package} (hq : q ∈ m.greeting i e) :
    ∃ x, 0 < x ∧ x < REMOTE_MAX ∧ x ≠ i ∧ ∃ addr, m.remote_addr x = some addr ∧
      q = ⟨harbor_handle x, bytesOf addr⟩ := by
  have hmax : REMOTE_MAX = 256 := rfl
  cases e with
  | update_address harbor_id addr fd attempt =>
    unfold Master.greeting at hq
    dsimp only at hq
    split at hq
    · rename_i heq
      obtain ⟨x, hx, haddr⟩ := List.mem_filterMap.mp hq
      obtain ⟨hrange, hne⟩ := List.mem_filter.mp hx
      obtain ⟨addr, haddr', rfl⟩ := Option.map_eq_some_iff.mp haddr
      rw [List.mem_range'_1] at hrange
      exact ⟨x, by omega, by omega, heq ▸ of_decide_eq_true hne, addr, haddr', rfl⟩
    · cases hq
  | request_name | update_name | opened | closed => cases hq

theorem small_of_greeting {e : MasterEv} {q : Package} (hq : q ∈ m.greeting i e) :
    q.handle.toNat < REMOTE_MAX := by
  obtain ⟨x, -, hlt, -, addr, -, rfl⟩ := greeting_small hq
  rw [toNat_harbor_handle hlt]
  exact hlt

/-- **What is known after a package is told to whom is reached.** -/
theorem said_or_silent (hm : m.Proper) (hb : m.before (p.toMaster fd attempt) = some r)
    (hx : m.exec (p.toMaster fd attempt) = some m')
    (hreach : ∀ a, r.2 = some a → r.1.reaches a i = true) (name : List ℕ) :
    Said m'.map (m.sends (p.toMaster fd attempt) r i) name ∨
      Silent m.map m'.map p (m.sends (p.toMaster fd attempt) r i) name := by
  have hmax : REMOTE_MAX = 256 := rfl
  have hspread := Master.exec_cases hb hx
  unfold Master.sends
  unfold Package.toMaster at hb ⊢
  split at hb
  · -- a name is asked for
    rename_i hzero
    rw [if_pos hzero]
    have hregisters : ¬p.Registers name := by
      rintro ⟨hle, -⟩
      rw [hzero] at hle
      exact absurd hle (by decide)
    unfold Master.before at hb
    dsimp only at hb
    -- the master answers if it knows the name
    cases hv : m.map (copy_name p.body) with
    | none =>
      rw [hv] at hb
      obtain rfl := Option.some.inj hb
      rcases hspread with ⟨-, rfl⟩ | ⟨_, hsome, -⟩
      · refine .inr ⟨fun q hq => (List.not_mem_nil hq).elim, rfl, hregisters, ?_⟩
        rintro ⟨-, rfl⟩
        exact hv
      · cases hsome
    | some value =>
      rw [hv] at hb
      obtain rfl := Option.some.inj hb
      rcases hspread with ⟨hnone, -⟩ | ⟨_, -, hs⟩
      · cases hnone
      obtain ⟨hle, hlt⟩ := hm.map _ _ hv
      have hvalue : (BitVec.ofNat 32 value).toNat = value := by
        rw [BitVec.toNat_ofNat, Nat.mod_eq_of_lt hlt]
      have hsends : (if m.reaches attempt i = true then
          (m.news (.request_name (copy_name p.body) attempt)).toList else []) ++
          m.greeting i (.request_name (copy_name p.body) attempt) =
            [⟨BitVec.ofNat 32 value, copy_name p.body⟩] := by
        rw [if_pos (hreach attempt rfl)]
        unfold Master.news
        dsimp only
        rw [hv]
        rfl
      dsimp only
      rw [hsends]
      by_cases hname : copy_name p.body = name
      · subst hname
        refine .inl ⟨_, BitVec.ofNat 32 value, rfl, Package.named_self (by omega), ?_⟩
        rw [hs.map, hv, hvalue]
      · refine .inr ⟨fun q hq => ?_, by rw [hs.map], hregisters, fun hasks => absurd hasks.2 hname⟩
        obtain rfl := List.mem_singleton.mp hq
        exact Package.named_of_ne hname
  · rename_i hne
    rw [if_neg hne]
    split at hb
    · -- an address is reported
      rename_i hsmall
      rw [if_pos hsmall]
      obtain ⟨-, hb⟩ := Option.ite_none_right_eq_some.mp hb
      obtain ⟨⟨m₁, b⟩, hreg, rfl⟩ := Option.map_eq_some_iff.mp hb
      have hmap : m'.map = m.map := by
        rcases hspread with ⟨-, rfl⟩ | ⟨_, -, hs⟩
        · exact (Master.register_spec hreg).1
        · exact hs.map.trans (Master.register_spec hreg).1
      refine .inr (silent_of_small hsmall hne ?_ hmap name)
      cases b with
      | false => exact fun q hq => (List.not_mem_nil hq).elim
      | true =>
        intro q hq
        rcases List.mem_append.mp hq with hq | hq
        · rw [if_pos (hreach attempt rfl)] at hq
          obtain rfl := List.mem_singleton.mp hq
          rw [toNat_harbor_handle hsmall]
          exact hsmall
        · exact small_of_greeting hq
    · -- a name is registered
      rename_i hlarge
      rw [if_neg hlarge]
      obtain rfl := Option.some.inj hb
      rcases hspread with ⟨hnone, -⟩ | ⟨_, -, hs⟩
      · cases hnone
      have hhandle : BitVec.ofNat 32 p.handle.toNat = p.handle := BitVec.ofNat_toNat ..
      dsimp only
      rw [if_pos (hreach attempt rfl)]
      unfold Master.news
      dsimp only
      rw [hhandle]
      by_cases hname : copy_name p.body = name
      · subst hname
        refine .inl ⟨_, p.handle, rfl, Package.named_self (by omega), ?_⟩
        rw [hs.map]
        exact Function.update_self ..
      · refine .inr ⟨fun q hq => ?_, ?_, fun hreg => hname hreg.2, fun hasks => absurd hasks.1 hne⟩
        · obtain rfl := List.mem_singleton.mp hq
          exact Package.named_of_ne hname
        · rw [hs.map]
          exact Function.update_of_ne (Ne.symm hname) _ _

/-- A harbor hears the first package. -/
theorem Told.heard {attempts : List Attempt} {connect : Option ℕ}
    (h₀ : Told known h up (p :: down))
    (hx : h.exec (p.toHarbor attempts connect) = some h') : Told known h' up down := by
  unfold Package.toHarbor at hx
  split at hx
  · rename_i hsmall
    obtain ⟨-, hmap, -⟩ := HarborState.update_remote_address_spec
      (show h.update_remote_address _ _ _ = some h' from hx)
    constructor
    · intro name
      have hv := h₀.value name
      rw [latest_cons, Package.named_eq_none hsmall] at hv
      rw [hmap]
      exact hv
    · intro name hqueue
      rw [hmap] at hqueue
      refine (h₀.queue name hqueue).imp_right (Or.imp_left ?_)
      rintro ⟨q, hq, hnamed⟩
      rcases List.mem_cons.mp hq with rfl | hq
      · rw [Package.named_eq_none hsmall] at hnamed
        cases hnamed
      · exact ⟨q, hq, hnamed⟩
  · rename_i hlarge
    obtain ⟨-, hmap⟩ := HarborState.update_remote_name_steady
      (Option.ite_none_left_eq_some.mp (show (if _ then none else _) = some h' from hx)).2
    constructor
    · intro name
      have hv := h₀.value name
      rw [latest_cons] at hv
      rw [hmap]
      by_cases hname : p.body = name
      · subst hname
        rw [show p.named p.body = some p.handle from if_pos ⟨by omega, rfl⟩] at hv
        rw [Function.update_self]
        exact hv
      · rw [Package.named_of_ne hname] at hv
        rw [Function.update_of_ne (Ne.symm hname)]
        exact hv
    · intro name hqueue
      rw [hmap] at hqueue
      by_cases hname : p.body = name
      · subst hname
        rw [Function.update_self] at hqueue
        cases hqueue
      · rw [Function.update_of_ne (Ne.symm hname)] at hqueue
        refine (h₀.queue name hqueue).imp_right (Or.imp_left ?_)
        rintro ⟨q, hq, hnamed⟩
        rcases List.mem_cons.mp hq with rfl | hq
        · rw [Package.named_of_ne hname] at hnamed
          cases hnamed
        · exact ⟨q, hq, hnamed⟩

/-- More packages to the master change nothing. -/
theorem Told.more (h₀ : Told known h up down) (l : List Package) : Told known h (up ++ l) down where
  value := by
    intro name
    refine (h₀.value name).imp_left ?_
    rintro ⟨q, hq, hreg⟩
    exact ⟨q, List.mem_append_left _ hq, hreg⟩
  queue := by
    intro name hqueue
    refine (h₀.queue name hqueue).imp_left ?_
    rintro ⟨q, hq, hasks⟩
    exact ⟨q, List.mem_append_left _ hq, hasks⟩

theorem Told.of_map (h₀ : Told known h up down) (hmap : h'.map = h.map) :
    Told known h' up down where
  value := by
    rw [hmap]
    exact h₀.value
  queue := by
    rw [hmap]
    exact h₀.queue

/-- What a harbor does on its own is on the way to the master. -/
theorem Told.act {e : HarborEv (List ℕ) μ} (h₀ : Told known h up down) (hlocal : e.Local)
    (hx : h.exec e = some h') : Told known h' (up ++ h.requests e) down := by
  have hmore : ∀ {l : List Package}, h'.map = h.map → Told known h' (up ++ l) down :=
    fun hmap => (h₀.more _).of_map hmap
  -- a name is asked for, or registered, with a package to the master behind it; no other act counts
  cases e with
  | send_name n msg attempt =>
    obtain ⟨-, ⟨hzero, queue, hmap⟩ | ⟨-, hmap⟩⟩ := HarborState.remote_send_name_steady
      (show h.remote_send_name n msg attempt = some h' from hx)
    · have hlocal : copy_name (stem n) = n := hlocal
      unfold HarborState.requests
      dsimp only
      rw [if_pos hzero]
      constructor
      · intro name
        have hvalue : (h'.map name).value = (h.map name).value := by
          rw [hmap]
          by_cases hn : name = n
          · subst hn
            rw [Function.update_self, hzero]
          · rw [Function.update_of_ne hn]
        rw [hvalue]
        exact (h₀.more _).value name
      · intro name hqueue
        by_cases hn : name = n
        · subst hn
          exact .inl ⟨_, List.mem_append_right _ List.mem_cons_self, rfl, hlocal⟩
        · rw [hmap, Function.update_of_ne hn] at hqueue
          exact (h₀.more _).queue name hqueue
    · exact hmore hmap
  | send_handle destination attempt =>
    obtain ⟨⟨h₁, fate⟩, hsend, rfl⟩ := Option.map_eq_some_iff.mp
      (show (h.remote_send_handle destination attempt).map Prod.fst = some h' from hx)
    exact hmore (HarborState.remote_send_handle_steady hsend).2
  | register_name n handle attempts =>
    have hlocal : copy_name (stem n) = n := hlocal
    change (if handle = 0 then some h else h.update_remote_name n handle attempts) = some h' at hx
    split at hx
    · cases hx
      exact hmore rfl
    · obtain ⟨-, hmap⟩ := HarborState.update_remote_name_steady hx
      show Told known h' (up ++ [⟨handle, stem n⟩]) down
      constructor
      · intro name
        by_cases hn : name = n
        · subst hn
          by_cases hsmall : REMOTE_MAX ≤ handle.toNat
          · exact .inl ⟨_, List.mem_append_right _ List.mem_cons_self, hsmall, hlocal⟩
          · -- such a handle is not one of a service
            refine (or_iff_not_imp_left.mpr fun hreg => ?_)
            rw [hmap, Function.update_self]
            by_cases hnews : ∃ q ∈ down, (q.named name).isSome
            · rw [latest_congr hnews]
              refine (h₀.value name).resolve_left ?_
              rintro ⟨q, hq, hq'⟩
              exact hreg ⟨q, List.mem_append_left _ hq, hq'⟩
            · refine .inl ?_
              rw [latest_of_silent]
              · exact Nat.lt_of_not_le hsmall
              · intro q hq
                by_contra hsome
                exact hnews ⟨q, hq, Option.isSome_iff_ne_none.mpr hsome⟩
        · rw [hmap, Function.update_of_ne hn]
          exact (h₀.more _).value name
      · intro name hqueue
        by_cases hn : name = n
        · subst hn
          rw [hmap, Function.update_self] at hqueue
          cases hqueue
        · rw [hmap, Function.update_of_ne hn] at hqueue
          exact (h₀.more _).queue name hqueue
  | opened fd =>
    obtain ⟨-, hst⟩ := Option.ite_none_right_eq_some.mp
      (show (if _ then some _ else none) = some h' from hx)
    obtain rfl := Option.some.inj hst
    exact hmore rfl
  | closed fd =>
    obtain ⟨-, hst⟩ := Option.ite_none_right_eq_some.mp
      (show (if _ then some _ else none) = some h' from hx)
    obtain rfl := Option.some.inj hst
    exact hmore rfl
  | update_name | update_address => cases hlocal

/-! ## Addresses -/

/-- The address that a harbor is connected to for another one once it has heard all, is the one
that the master is connected to. -/
def Placed (m : Master) (h : HarborState (List ℕ) μ) (down : List Package) : Prop :=
  ∀ j, j ≠ h.id → (m.remote_fd j).isSome → ∀ addr,
    latest (Package.placed j) (h.view j) down = some addr → m.remote_addr j = some addr

theorem Placed.of_view (h₀ : Placed m h down) (hid : h'.id = h.id)
    (hview : ∀ j, h'.view j = h.view j ∨ h'.view j = none) : Placed m h' down := by
  intro j hj hfd addr hlatest
  rcases hview j with heq | hnone
  · rw [heq] at hlatest
    exact h₀ j (hid ▸ hj) hfd addr hlatest
  · refine h₀ j (hid ▸ hj) hfd addr ?_
    by_cases hnews : ∃ p ∈ down, (p.placed j).isSome
    · rw [← hlatest]
      exact latest_congr hnews
    · rw [hnone, latest_of_silent] at hlatest
      · cases hlatest
      · intro q hq
        by_contra hsome
        exact hnews ⟨q, hq, Option.isSome_iff_ne_none.mpr hsome⟩

theorem Placed.of_table (h₀ : Placed m h down) (haddr : m'.remote_addr = m.remote_addr)
    (hfd : m'.remote_fd = m.remote_fd) : Placed m' h down := by
  unfold Placed
  rw [haddr, hfd]
  exact h₀

/-- A harbor hears the first package. -/
theorem Placed.heard {attempts : List Attempt} {connect : Option ℕ}
    (h₀ : Placed m h (p :: down)) (hm : m.Proper)
    (hx : h.exec (p.toHarbor attempts connect) = some h') : Placed m h' down := by
  unfold Package.toHarbor at hx
  split at hx
  · rename_i hsmall
    obtain ⟨hid, -, hview, hothers⟩ := HarborState.update_remote_address_spec
      (show h.update_remote_address _ _ _ = some h' from hx)
    intro j hj hfd addr hlatest
    rw [hid] at hj
    have hold := h₀ j hj hfd
    rw [latest_cons] at hold
    by_cases hp : p.handle.toNat = j
    · subst hp
      rw [show p.placed p.handle.toNat = some (some (addrOf p.body)) from if_pos rfl] at hold
      rcases hview hj with heq | hnone
      · rw [heq] at hlatest
        exact hold addr hlatest
      · by_cases hnews : ∃ q ∈ down, (q.placed p.handle.toNat).isSome
        · refine hold addr ?_
          rw [← hlatest]
          exact latest_congr hnews
        · rw [hnone, latest_of_silent] at hlatest
          · cases hlatest
          · intro q hq
            by_contra hsome
            exact hnews ⟨q, hq, Option.isSome_iff_ne_none.mpr hsome⟩
    · rw [show p.placed j = none from if_neg hp] at hold
      rw [hothers j (Ne.symm hp)] at hlatest
      exact hold addr hlatest
  · rename_i hlarge
    obtain ⟨hsteady, -⟩ := HarborState.update_remote_name_steady
      (Option.ite_none_left_eq_some.mp (show (if _ then none else _) = some h' from hx)).2
    have hsilent : Placed m h down := by
      intro j hj hfd addr hlatest
      refine h₀ j hj hfd addr ?_
      have hlt := (hm.addr j hfd).2.2
      rw [latest_cons, show p.placed j = none from if_neg (by omega)]
      exact hlatest
    exact hsilent.of_view hsteady.id hsteady.view

/-- What the master is still connected to, it was connected to before the broadcast. -/
theorem exec_table (hb : m.before (p.toMaster fd attempt) = some r)
    (hx : m.exec (p.toMaster fd attempt) = some m') :
    m'.remote_addr = r.1.remote_addr ∧
      ∀ j, (m'.remote_fd j).isSome → (r.1.remote_fd j).isSome := by
  rcases Master.exec_cases hb hx with ⟨-, rfl⟩ | ⟨_, -, hs⟩
  · exact ⟨rfl, fun _ hj => hj⟩
  · refine ⟨hs.addr, fun j hj => ?_⟩
    rcases hs.fd j with heq | ⟨hnone, -, -⟩
    · rwa [heq] at hj
    · rw [hnone] at hj
      cases hj

/-- What the master does to its entries: only those of a report are changed. -/
theorem before_table (hb : m.before (p.toMaster fd attempt) = some r) (hj : ¬p.Reports j) :
    r.1.remote_addr j = m.remote_addr j ∧ r.1.remote_fd j = m.remote_fd j := by
  unfold Package.toMaster at hb
  split at hb
  · unfold Master.before at hb
    dsimp only at hb
    split at hb <;> obtain rfl := Option.some.inj hb <;> exact ⟨rfl, rfl⟩
  · rename_i hne
    split at hb
    · rename_i hsmall
      obtain ⟨-, hb⟩ := Option.ite_none_right_eq_some.mp hb
      obtain ⟨⟨m₁, b⟩, hreg, rfl⟩ := Option.map_eq_some_iff.mp hb
      obtain ⟨-, haddr, -, hothers⟩ := Master.register_spec hreg
      have hjp : j ≠ p.handle.toNat := by
        rintro rfl
        exact hj ⟨hne, rfl, hsmall⟩
      exact ⟨by rw [haddr, Function.update_of_ne hjp], hothers j hjp⟩
    · obtain rfl := Option.some.inj hb
      exact ⟨rfl, rfl⟩

/-- A report of an address: the entry, and what is sent to whom is reached. -/
theorem before_report (hb : m.before (p.toMaster fd attempt) = some r) (hp : p.Reports j) :
    r.1.remote_addr j = some (addrOf p.body) ∧ (r.1.remote_fd j).isSome = r.2.isSome ∧
      ((∀ a, r.2 = some a → r.1.reaches a i = true) → r.2.isSome = true →
        m.sends (p.toMaster fd attempt) r i =
          ⟨harbor_handle j, bytesOf (addrOf p.body)⟩ ::
            r.1.greeting i (p.toMaster fd attempt)) := by
  rw [hp.toMaster] at hb ⊢
  obtain ⟨-, hb⟩ := Option.ite_none_right_eq_some.mp hb
  obtain ⟨⟨m₁, b⟩, hreg, rfl⟩ := Option.map_eq_some_iff.mp hb
  obtain ⟨-, haddr, hsome, -⟩ := Master.register_spec hreg
  refine ⟨by rw [haddr, Function.update_self], ?_, ?_⟩
  · rw [hsome]
    cases b <;> rfl
  · intro hreach hb
    cases b with
    | false => cases hb
    | true =>
      unfold Master.sends
      dsimp only
      rw [if_pos rfl]
      dsimp only
      rw [if_pos (hreach attempt rfl)]
      rfl

/-- Only who reports an address is greeted. -/
theorem greeting_other (hi : ¬p.Reports i) : m.greeting i (p.toMaster fd attempt) = [] := by
  unfold Package.toMaster
  split
  · rfl
  · rename_i hne
    split
    · rename_i hsmall
      refine if_neg ?_
      rintro rfl
      exact hi ⟨hne, rfl, hsmall⟩
    · rfl

/-- What is sent is about a name, or about the harbor of the package, or a greeting. -/
theorem sends_cases {q : Package} (hm : m.Proper) (hq : q ∈ m.sends (p.toMaster fd attempt) r i) :
    REMOTE_MAX ≤ q.handle.toNat ∨ q.handle = p.handle ∨
      q ∈ r.1.greeting i (p.toMaster fd attempt) := by
  unfold Master.sends at hq
  cases hr : r.2 with
  | none =>
    rw [hr] at hq
    cases hq
  | some a =>
    rw [hr] at hq
    rcases List.mem_append.mp hq with hq | hq
    · split at hq
      on_goal 2 => cases hq
      rw [Option.mem_toList] at hq
      unfold Package.toMaster at hq
      split at hq
      · -- a name is asked for
        obtain ⟨value, hv, rfl⟩ := Option.map_eq_some_iff.mp hq
        obtain ⟨hle, hlt⟩ := hm.map _ _ hv
        refine .inl ?_
        show _ ≤ (BitVec.ofNat 32 value).toNat
        rw [BitVec.toNat_ofNat, Nat.mod_eq_of_lt hlt]
        exact hle
      · refine .inr (.inl ?_)
        split at hq <;> cases hq <;> exact BitVec.ofNat_toNat ..
    · exact .inr (.inr hq)

/-- The master takes a package that is no report of this harbor. -/
theorem Placed.handled (h₀ : Placed m h down) (hm : m.Proper)
    (hb : m.before (p.toMaster fd attempt) = some r)
    (hx : m.exec (p.toMaster fd attempt) = some m') (hother : ¬p.Reports h.id)
    (hreach : ∀ a, r.2 = some a → r.1.reaches a h.id = true) :
    Placed m' h (down ++ m.sends (p.toMaster fd attempt) r h.id) := by
  intro j hj hfd' addr hlatest
  obtain ⟨haddr, hfds⟩ := exec_table hb hx
  have hfd := hfds j hfd'
  rw [haddr]
  obtain ⟨-, hpos, hlt⟩ := (hm.before hb).addr j hfd
  by_cases hp : p.Reports j
  · -- it is the report of the other harbor
    obtain ⟨hmade, hsome, hsends⟩ := before_report (i := h.id) hb hp
    rw [hsends hreach (hsome ▸ hfd), greeting_other hother,
      latest_concat (c := some (addrOf p.body))] at hlatest
    · rw [hmade]
      exact hlatest
    · unfold Package.placed
      rw [toNat_harbor_handle hlt, if_pos rfl, addrOf_bytesOf]
  · obtain ⟨haddr', hfd₀⟩ := before_table hb hp
    rw [hfd₀] at hfd
    rw [haddr']
    refine h₀ j hj hfd addr ?_
    rw [latest_append_of_silent] at hlatest
    · exact hlatest
    · intro q hq
      refine if_neg ?_
      rcases sends_cases hm hq with hlarge | heq | hgreet
      · omega
      · rw [heq]
        intro hpj
        refine hp ⟨?_, hpj, hlt⟩
        rintro hzero
        rw [hzero] at hpj
        exact absurd hpj (by simp; omega)
      · rw [greeting_other hother] at hgreet
        cases hgreet

/-- A harbor whose report the master takes has no connections yet, and is told all addresses. -/
theorem Placed.greeted (hm : m.Proper) (hview : ∀ j, h.view j = none)
    (hb : m.before (p.toMaster fd attempt) = some r)
    (hx : m.exec (p.toMaster fd attempt) = some m') (hself : p.handle.toNat = h.id) :
    Placed m' h (m.sends (p.toMaster fd attempt) r h.id) := by
  intro j hj hfd' addr hlatest
  obtain ⟨haddr, hfds⟩ := exec_table hb hx
  have hlt := ((hm.before hb).addr j (hfds j hfd')).2.2
  rw [haddr]
  have hlast : latest (Package.placed j) (h.view j) (m.sends (p.toMaster fd attempt) r h.id) =
      h.view j ∨ ∃ q ∈ m.sends (p.toMaster fd attempt) r h.id, q.placed j = some
        (latest (Package.placed j) (h.view j) (m.sends (p.toMaster fd attempt) r h.id)) :=
    latest_cases
  rcases hlast with hnone | ⟨q, hq, hplaced⟩
  · rw [hlatest, hview] at hnone
    cases hnone
  · rw [hlatest] at hplaced
    unfold Package.placed at hplaced
    split at hplaced
    on_goal 2 => cases hplaced
    rename_i hqj
    obtain rfl := Option.some.inj (Option.some.inj hplaced)
    rcases sends_cases hm hq with hlarge | heq | hgreet
    · omega
    · rw [heq, hself] at hqj
      exact absurd hqj.symm hj
    · obtain ⟨x, -, hx, -, addr, hentry, rfl⟩ := greeting_small hgreet
      obtain rfl : x = j := by rw [← hqj, toNat_harbor_handle hx]
      rw [hentry, addrOf_bytesOf]

end DnServer.Harbor
