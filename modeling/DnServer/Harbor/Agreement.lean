import DnServer.Harbor.Told

/-!
# Harbors agree on names and addresses

As long as the connections of a harbor with the master have never failed, the two
differ only in what is still on the way: with nothing about a name under way, a
harbor that has a handle for it has the one of the master, and what waits for the
name waits because the master has no handle for it. The same goes for the
addresses that a harbor is connected to.

* `Inv.step`: an invariant of the whole network, kept by what each node does and by
  every way a package is taken or lost.
* `names_agree`, `addresses_agree`: read off it where nothing is on the way.
* `cut_off`: step by step behind the report, until the harbor gives an address again
  (`unreached_run`).
-/

namespace DnServer.Harbor

open DnServer.Lib Names

variable {μ : Type} {m : Master} {r : Master × Option (ℕ → Attempt)} {name : List ℕ} {p : Package}
  {fd : Option ℕ} {attempt : ℕ → Attempt} {i j k : ℕ}

/-! ## The network -/

namespace Network

variable {s s' : Network μ}

/-- Nothing was told to the harbor yet, and its report is the first that it has to say. -/
structure Fresh (s : Network μ) (i : ℕ) : Prop where
  down : s.down i = []
  fd : s.master.remote_fd i = none
  quiet : s.started i = false → s.up i = []
  reports : s.started i = true → (0 < i ∧ i < REMOTE_MAX) ∧
    ∃ addr rest, s.up i = ⟨harbor_handle i, bytesOf addr⟩ :: rest
  told : ∀ known, Told known (s.harbor i) (s.up i) []
  apart : ∀ j, (s.harbor i).remote_fd j = none

/-- The harbor and the master differ in what is on the way. -/
structure Joined (s : Network μ) (i : ℕ) : Prop where
  started : s.started i = true
  fd : (s.master.remote_fd i).isSome
  told : Told s.master.map (s.harbor i) (s.up i) (s.down i)
  placed : Placed s.master (s.harbor i) (s.down i)

/-- The invariant. -/
structure Inv (s : Network μ) : Prop where
  proper : s.master.Proper
  id : ∀ i, (s.harbor i).id = i
  fresh : ∀ i, s.link i = .fresh → s.Fresh i
  joined : ∀ i, s.link i = .joined → s.Joined i

theorem create_inv : (create : Network μ).Inv where
  proper := ⟨fun _ _ hv => (Option.some_ne_none _ hv.symm).elim, fun _ hi => by cases hi⟩
  id _ := rfl
  fresh i _ := {
    down := rfl
    fd := rfl
    quiet := fun _ => rfl
    reports := fun hs => by cases hs
    told := fun _ => ⟨fun _ => .inr (.inl (show (0 : BitVec 32).toNat < REMOTE_MAX by decide)),
      fun _ hq => by cases hq⟩
    apart := fun _ => rfl }
  joined i hi := by cases hi

/-- The packages that are left when one is taken. -/
theorem mem_of_taken {l : List Package} (hp : l[k]? = some p) (q : Package) (hq : q ∈ l) :
    q ∈ l.eraseIdx k ∨ q = p := by
  obtain ⟨n, hn⟩ := List.mem_iff_getElem?.mp hq
  by_cases hnk : n = k
  · subst hnk
    exact .inr (Option.some.inj (hn.symm.trans hp))
  · exact .inl (List.mem_eraseIdx_iff_getElem?.mpr ⟨n, hnk, hn⟩)

/-- The first package of a harbor that is not linked yet is its report. -/
theorem Fresh.first (h₀ : s.Fresh i) (hturn : s.InTurn i k) (hlink : s.link i = .fresh)
    (hp : (s.up i)[k]? = some p) :
    p.Reports i ∧ s.started i = true ∧ ∀ q ∈ s.up i, q ∈ (s.up i).eraseIdx k ∨ q = p := by
  have hstarted : s.started i = true := by
    by_contra hno
    rw [h₀.quiet (Bool.not_eq_true _ ▸ hno)] at hp
    cases hp
  obtain ⟨⟨hpos, hlt⟩, addr, rest, hup⟩ := h₀.reports hstarted
  refine ⟨?_, hstarted, mem_of_taken hp⟩
  obtain rfl : k = 0 := hturn.resolve_right fun hbroken => by rw [hlink] at hbroken; cases hbroken
  rw [hup] at hp
  obtain rfl := Option.some.inj hp
  have htoNat := toNat_harbor_handle hlt
  refine ⟨?_, htoNat, hlt⟩
  intro hzero
  have hzero : harbor_handle i = 0 := hzero
  rw [hzero] at htoNat
  exact absurd htoNat (by simp; omega)

theorem addressed_report {b : Bool} (hp : p.Reports j) :
    s.addressed i (p.toMaster fd attempt) b j = (s.link j).readdressed (i = j) b := by
  rw [hp.toMaster]
  exact if_pos rfl

theorem addressed_other {b : Bool} (hp : ¬p.Reports j) :
    s.addressed i (p.toMaster fd attempt) b j = s.link j := by
  unfold Package.toMaster
  split
  · rfl
  · rename_i hne
    split
    · rename_i hsmall
      refine if_neg ?_
      rintro rfl
      exact hp ⟨hne, rfl, hsmall⟩
    · rfl

theorem readdressed_fresh {link : Link} {own connected : Bool} :
    link.readdressed own connected = .fresh ↔
      link = .fresh ∧ own = false ∧ connected = false := by
  cases link <;> cases own <;> cases connected <;> decide

theorem readdressed_joined {link : Link} {own connected : Bool} :
    link.readdressed own connected = .joined ↔
      link = .fresh ∧ own = true ∧ connected = true := by
  cases link <;> cases own <;> cases connected <;> decide

/-- A link that is fresh after a package was fresh, and the package was not from there. -/
theorem relinked_fresh (h : s.relinked i (p.toMaster fd attempt) r j = .fresh) :
    s.link j = .fresh ∧ (p.Reports j → i ≠ j ∧ r.2 = none) := by
  unfold relinked at h
  by_cases hp : p.Reports j
  · cases hr : r.2 with
    | none =>
      rw [hr] at h
      dsimp only at h
      rw [addressed_report hp, readdressed_fresh] at h
      exact ⟨h.1, fun _ => ⟨of_decide_eq_false h.2.1, rfl⟩⟩
    | some a =>
      rw [hr] at h
      dsimp only at h
      rw [addressed_report hp] at h
      split at h
      · cases h
      · cases (readdressed_fresh.mp h).2.2
  · refine ⟨?_, fun hp' => absurd hp' hp⟩
    cases hr : r.2 with
    | none =>
      rw [hr] at h
      dsimp only at h
      rwa [addressed_other hp] at h
    | some a =>
      rw [hr] at h
      dsimp only at h
      rw [addressed_other hp] at h
      split at h
      · cases h
      · exact h

/-- A link that is joined after a package was joined and the package is no report, or it is the
report that joins it; and no write has failed. -/
theorem relinked_joined (h : s.relinked i (p.toMaster fd attempt) r j = .joined) :
    (∀ a, r.2 = some a → (r.1.remote_fd j).isSome → (a j).err = false) ∧
      ((s.link j = .joined ∧ ¬p.Reports j) ∨
        (s.link j = .fresh ∧ p.Reports j ∧ i = j ∧ r.2.isSome = true)) := by
  unfold relinked at h
  cases hr : r.2 with
  | none =>
    rw [hr] at h
    dsimp only at h
    refine ⟨fun _ ha => (Option.some_ne_none _ ha.symm).elim, ?_⟩
    by_cases hp : p.Reports j
    · rw [addressed_report hp, readdressed_joined] at h
      cases h.2.2
    · rw [addressed_other hp] at h
      exact .inl ⟨h, hp⟩
  | some a =>
    rw [hr] at h
    dsimp only at h
    split at h
    · cases h
    · rename_i hwritten
      refine ⟨?_, ?_⟩
      · rintro _ ha hsome
        obtain rfl := Option.some.inj ha
        rw [not_and, Bool.not_eq_true] at hwritten
        exact hwritten hsome
      · by_cases hp : p.Reports j
        · rw [addressed_report hp, readdressed_joined] at h
          exact .inr ⟨h.1, hp, of_decide_eq_true h.2.1, rfl⟩
        · rw [addressed_other hp] at h
          exact .inl ⟨h, hp⟩

/-- The master has handled a package. -/
theorem Inv.report (hinv : s.Inv) (hturn : s.InTurn i k) (hp : (s.up i)[k]? = some p)
    (hx : s.report i k (p.toMaster fd attempt) = some s') : s'.Inv := by
  obtain ⟨r, hb, hx⟩ := Option.bind_eq_some_iff.mp hx
  obtain ⟨m, hm, rfl⟩ := Option.map_eq_some_iff.mp hx
  obtain ⟨-, hfds⟩ := exec_table hb hm
  refine ⟨hinv.proper.exec hb hm, hinv.id, fun j hj => ?_, fun j hj => ?_⟩
  · obtain ⟨hlink, hreport⟩ := relinked_fresh hj
    have h₀ := hinv.fresh j hlink
    have hij : i ≠ j := by
      rintro rfl
      exact (hreport (h₀.first hturn hlink hp).1).1 rfl
    have hnone : r.1.remote_fd j = none := by
      by_cases hr : p.Reports j
      · have hsome := (before_report (i := j) hb hr).2.1
        rw [(hreport hr).2] at hsome
        exact Option.not_isSome_iff_eq_none.mp (by rw [hsome]; simp)
      · rw [(before_table hb hr).2]
        exact h₀.fd
    have hsends : s.master.sends (p.toMaster fd attempt) r j = [] := by
      unfold Master.sends Master.reaches
      cases hr₂ : r.2 with
      | none => rfl
      | some a =>
        have hr : ¬p.Reports j := by
          intro hr
          rw [(hreport hr).2] at hr₂
          cases hr₂
        dsimp only
        rw [hnone, greeting_other hr]
        rfl
    have hup : Function.update s.up i ((s.up i).eraseIdx k) j = s.up j :=
      Function.update_of_ne (Ne.symm hij) _ _
    refine ⟨?_, ?_, ?_, ?_, ?_, h₀.apart⟩
    · show s.down j ++ _ = []
      rw [h₀.down, hsends]
      rfl
    · by_contra hsome
      have hsome := hfds j (Option.isSome_iff_ne_none.mpr hsome)
      rw [hnone] at hsome
      cases hsome
    · simp only [hup]
      exact h₀.quiet
    · simp only [hup]
      exact h₀.reports
    · simp only [hup]
      exact h₀.told
  · obtain ⟨hwritten, hcase⟩ := relinked_joined hj
    -- the entry of the harbor, and that the broadcast reaches it
    have hentry : (r.1.remote_fd j).isSome := by
      rcases hcase with ⟨hlink, hr⟩ | ⟨-, hr, -, hsome⟩
      · rw [(before_table hb hr).2]
        exact (hinv.joined j hlink).fd
      · rw [(before_report (i := j) hb hr).2.1]
        exact hsome
    have hreach : ∀ a, r.2 = some a → r.1.reaches a j = true := by
      intro a ha
      unfold Master.reaches
      rw [hentry, hwritten a ha hentry]
      rfl
    have hfd : (m.remote_fd j).isSome := by
      rcases Master.exec_cases hb hm with ⟨-, rfl⟩ | ⟨a, ha, hs⟩
      · exact hentry
      · rcases hs.fd j with heq | ⟨-, -, herr⟩
        · rw [heq]
          exact hentry
        · rw [hwritten a ha hentry] at herr
          cases herr
    have hup : ∀ q ∈ s.up j, q ∈ Function.update s.up i ((s.up i).eraseIdx k) j ∨ q = p := by
      by_cases hij : j = i
      · subst hij
        rw [Function.update_self]
        exact mem_of_taken hp
      · rw [Function.update_of_ne hij]
        exact fun q hq => .inl hq
    have hsaid := said_or_silent (i := j) hinv.proper hb hm hreach
    rcases hcase with ⟨hlink, hr⟩ | ⟨hlink, hr, rfl, -⟩
    · have h₀ := hinv.joined j hlink
      have hid := hinv.id j
      refine ⟨h₀.started, hfd, h₀.told.handled hup hsaid, ?_⟩
      have hplaced := h₀.placed.handled hinv.proper hb hm (by rwa [hid]) (by rwa [hid])
      rw [hid] at hplaced
      exact hplaced
    · have h₀ := hinv.fresh i hlink
      have hid := hinv.id i
      have htold := (h₀.told s.master.map).handled hup hsaid
      have hplaced : Placed m (s.harbor i) (s.master.sends (p.toMaster fd attempt) r i) := by
        have hgreeted := Placed.greeted (h := s.harbor i) hinv.proper
          (fun j => by unfold HarborState.view; rw [h₀.apart]; rfl) hb hm
          (by rw [hid]; exact hr.2.1)
        rwa [hid] at hgreeted
      refine ⟨(h₀.first hturn hlink hp).2.1, hfd, ?_, ?_⟩
      · show Told m.map (s.harbor i) _ (s.down i ++ _)
        rw [h₀.down]
        exact htold
      · show Placed m (s.harbor i) (s.down i ++ _)
        rw [h₀.down]
        exact hplaced

/-- What a step of one harbor leaves to show. -/
theorem Inv.of_harbor (hinv : s.Inv) (h : HarborState (List ℕ) μ) (up down : List Package)
    (hid : h.id = i)
    (hfresh : s.link i = .fresh → s.Fresh i → down = [] ∧ s.started i = true ∧
      (∃ more, up = s.up i ++ more) ∧ (∀ known, Told known h up []) ∧ ∀ j, h.remote_fd j = none)
    (hjoined : s.link i = .joined → s.Joined i → Told s.master.map h up down ∧
      Placed s.master h down) :
    ({ s with
      harbor := Function.update s.harbor i h
      up := Function.update s.up i up
      down := Function.update s.down i down } : Network μ).Inv where
  proper := hinv.proper
  id := by
    intro j
    show (Function.update s.harbor i h j).id = j
    by_cases hj : j = i
    · subst hj
      rw [Function.update_self]
      exact hid
    · rw [Function.update_of_ne hj]
      exact hinv.id j
  fresh := by
    intro j hlink
    have h₀ := hinv.fresh j hlink
    by_cases hj : j = i
    · subst hj
      obtain ⟨hdown, hstarted, ⟨more, hup⟩, htold, hapart⟩ := hfresh hlink h₀
      obtain ⟨hrange, addr, rest, hreport⟩ := h₀.reports hstarted
      refine ⟨?_, h₀.fd, fun hno => ?_, fun _ => ⟨hrange, addr, rest ++ more, ?_⟩, ?_, ?_⟩
      · exact (Function.update_self ..).trans hdown
      · cases hstarted.symm.trans hno
      · refine (Function.update_self ..).trans ?_
        rw [hup, hreport]
        rfl
      · simp only [Function.update_self]
        exact htold
      · simp only [Function.update_self]
        exact hapart
    · refine ⟨?_, h₀.fd, ?_, ?_, ?_, ?_⟩
      · exact (Function.update_of_ne hj _ _).trans h₀.down
      · simp only [Function.update_of_ne hj]
        exact h₀.quiet
      · simp only [Function.update_of_ne hj]
        exact h₀.reports
      · simp only [Function.update_of_ne hj]
        exact h₀.told
      · simp only [Function.update_of_ne hj]
        exact h₀.apart
  joined := by
    intro j hlink
    have h₀ := hinv.joined j hlink
    by_cases hj : j = i
    · subst hj
      obtain ⟨htold, hplaced⟩ := hjoined hlink h₀
      refine ⟨h₀.started, h₀.fd, ?_, ?_⟩
      · simp only [Function.update_self]
        exact htold
      · simp only [Function.update_self]
        exact hplaced
    · refine ⟨h₀.started, h₀.fd, ?_, ?_⟩
      · simp only [Function.update_of_ne hj]
        exact h₀.told
      · simp only [Function.update_of_ne hj]
        exact h₀.placed

/-- A harbor does a step on its own. -/
theorem Inv.act {e : HarborEv (List ℕ) μ} (hinv : s.Inv) (hstarted : s.started i = true)
    (hlocal : e.Local) (hx : s.act i e = some s') : s'.Inv := by
  obtain ⟨h, hexec, rfl⟩ := Option.map_eq_some_iff.mp hx
  have hsteady := HarborState.exec_steady hexec hlocal
  have hinv' := hinv.of_harbor h (s.up i ++ (s.harbor i).requests e) (s.down i)
    (hsteady.id.trans (hinv.id i))
    (fun _ h₀ => ⟨h₀.down, hstarted, ⟨_, rfl⟩, fun known => (h₀.told known).act hlocal hexec,
      fun j => hsteady.fd j (h₀.apart j)⟩)
    (fun _ h₀ => ⟨h₀.told.act hlocal hexec, h₀.placed.of_view hsteady.id hsteady.view⟩)
  rw [Function.update_eq_self] at hinv'
  exact hinv'

/-- A harbor hears a package of the master. -/
theorem Inv.tell {attempts : List Attempt} {connect : Option ℕ} (hinv : s.Inv)
    (hturn : s.InTurn i k) (hp : (s.down i)[k]? = some p)
    (hx : ({ s with down := Function.update s.down i ((s.down i).eraseIdx k) } : Network μ).act i
      (p.toHarbor attempts connect) = some s') : s'.Inv := by
  obtain ⟨h, hexec, rfl⟩ := Option.map_eq_some_iff.mp hx
  have hquiet : (s.harbor i).requests (p.toHarbor attempts connect) = [] := by
    unfold Package.toHarbor
    split <;> rfl
  have hinv' := hinv.of_harbor h (s.up i) ((s.down i).eraseIdx k)
    ((HarborState.exec_toHarbor_id hexec).trans (hinv.id i))
    (fun _ h₀ => by
      rw [h₀.down] at hp
      cases hp)
    (fun hlink h₀ => by
      obtain rfl : k = 0 := hturn.resolve_right fun hbroken => by
        rw [hlink] at hbroken
        cases hbroken
      cases hdown : s.down i with
      | nil =>
        rw [hdown] at hp
        cases hp
      | cons q rest =>
        rw [hdown] at hp
        obtain rfl := Option.some.inj hp
        have htold := h₀.told
        have hplaced := h₀.placed
        rw [hdown] at htold hplaced
        exact ⟨htold.heard hexec, hplaced.heard hinv.proper hexec⟩)
  show Inv { s with
    harbor := Function.update s.harbor i h
    up := Function.update s.up i (s.up i ++ _)
    down := Function.update s.down i ((s.down i).eraseIdx k) }
  rw [hquiet, List.append_nil]
  exact hinv'

/-- The master's tables are as they were. -/
theorem Inv.process (hinv : s.Inv) (hmap : m.map = s.master.map)
    (haddr : m.remote_addr = s.master.remote_addr) (hfd : m.remote_fd = s.master.remote_fd) :
    ({ s with master := m } : Network μ).Inv where
  proper := by
    refine ⟨?_, ?_⟩
    · show ∀ name value, m.map name = some value → _
      rw [hmap]
      exact hinv.proper.map
    · show ∀ i, (m.remote_fd i).isSome → (m.remote_addr i).isSome ∧ _
      rw [hfd, haddr]
      exact hinv.proper.addr
  id := hinv.id
  fresh := by
    intro j hlink
    have h₀ := hinv.fresh j hlink
    exact ⟨h₀.down, (congrFun hfd j).trans h₀.fd, h₀.quiet, h₀.reports, h₀.told, h₀.apart⟩
  joined := by
    intro j hlink
    have h₀ := hinv.joined j hlink
    refine ⟨h₀.started, ?_, ?_, h₀.placed.of_table haddr hfd⟩
    · show (m.remote_fd j).isSome
      rw [hfd]
      exact h₀.fd
    · show Told m.map _ _ _
      rw [hmap]
      exact h₀.told

/-- Where links break or packages are lost, nothing is promised. -/
theorem Inv.lose {up down : ℕ → List Package} {link : ℕ → Link} (hinv : s.Inv)
    (hsame : ∀ j, link j ≠ .broken → link j = s.link j ∧ up j = s.up j ∧ down j = s.down j) :
    ({ s with up := up, down := down, link := link } : Network μ).Inv where
  proper := hinv.proper
  id := hinv.id
  fresh := by
    intro j hlink
    have hlink : link j = .fresh := hlink
    obtain ⟨hl, hu, hd⟩ := hsame j (by rw [hlink]; decide)
    have h₀ := hinv.fresh j (hl ▸ hlink)
    refine ⟨hd.trans h₀.down, h₀.fd, ?_, ?_, ?_, h₀.apart⟩
    · show _ → up j = []
      rw [hu]
      exact h₀.quiet
    · show _ → _ ∧ ∃ addr rest, up j = _
      rw [hu]
      exact h₀.reports
    · show ∀ known, Told known _ (up j) []
      rw [hu]
      exact h₀.told
  joined := by
    intro j hlink
    have hlink : link j = .joined := hlink
    obtain ⟨hl, hu, hd⟩ := hsame j (by rw [hlink]; decide)
    have h₀ := hinv.joined j (hl ▸ hlink)
    refine ⟨h₀.started, h₀.fd, ?_, ?_⟩
    · show Told _ _ (up j) (down j)
      rw [hu, hd]
      exact h₀.told
    · show Placed _ _ (down j)
      rw [hd]
      exact h₀.placed

theorem Inv.start {addr : Addr} (hinv : s.Inv) (hnot : s.started i = false)
    (hrange : 0 < i ∧ i < REMOTE_MAX) :
    ({ s with
      started := Function.update s.started i true
      up := Function.update s.up i (s.up i ++ [⟨harbor_handle i, bytesOf addr⟩]) } :
      Network μ).Inv where
  proper := hinv.proper
  id := hinv.id
  fresh := by
    intro j hlink
    have h₀ := hinv.fresh j hlink
    by_cases hj : j = i
    · subst hj
      refine ⟨h₀.down, h₀.fd, fun hno => ?_, fun _ => ⟨hrange, addr, [], ?_⟩, ?_, h₀.apart⟩
      · cases (Function.update_self ..).symm.trans hno
      · refine (Function.update_self ..).trans ?_
        rw [h₀.quiet hnot]
        rfl
      · simp only [Function.update_self]
        exact fun known => (h₀.told known).more _
    · refine ⟨h₀.down, h₀.fd, ?_, ?_, ?_, h₀.apart⟩
      · simp only [Function.update_of_ne hj]
        exact h₀.quiet
      · simp only [Function.update_of_ne hj]
        exact h₀.reports
      · simp only [Function.update_of_ne hj]
        exact h₀.told
  joined := by
    intro j hlink
    have h₀ := hinv.joined j hlink
    have hj : j ≠ i := by
      rintro rfl
      cases h₀.started.symm.trans hnot
    refine ⟨?_, h₀.fd, ?_, h₀.placed⟩
    · exact (Function.update_of_ne hj _ _).trans h₀.started
    · simp only [Function.update_of_ne hj]
      exact h₀.told

/-- Each step keeps the invariant. -/
theorem Inv.step {e : NetworkEv μ} (hinv : s.Inv) (hx : s.exec e = some s') : s'.Inv := by
  cases e with
  | start i addr =>
    obtain ⟨⟨hnot, hrange⟩, hst⟩ := Option.ite_none_right_eq_some.mp hx
    obtain rfl := Option.some.inj hst
    exact hinv.start hnot hrange
  | act i e =>
    obtain ⟨⟨hstarted, hlocal⟩, hx⟩ := Option.ite_none_right_eq_some.mp hx
    exact hinv.act hstarted hlocal hx
  | report i k fd attempt =>
    obtain ⟨hturn, hx⟩ := Option.ite_none_right_eq_some.mp hx
    obtain ⟨p, hp, hx⟩ := Option.bind_eq_some_iff.mp hx
    exact hinv.report hturn hp hx
  | tell i k attempts connect =>
    obtain ⟨⟨-, hturn⟩, hx⟩ := Option.ite_none_right_eq_some.mp hx
    obtain ⟨p, hp, hx⟩ := Option.bind_eq_some_iff.mp hx
    exact hinv.tell hturn hp hx
  | breaks i =>
    obtain rfl := Option.some.inj hx
    refine hinv.lose fun j hj => ?_
    have hji : j ≠ i := by
      rintro rfl
      exact hj (Function.update_self ..)
    exact ⟨Function.update_of_ne hji _ _, rfl, rfl⟩
  | lose_up i k =>
    obtain ⟨hbroken, hst⟩ := Option.ite_none_right_eq_some.mp hx
    obtain rfl := Option.some.inj hst
    refine hinv.lose fun j hj => ⟨rfl, Function.update_of_ne ?_ _ _, rfl⟩
    rintro rfl
    exact hj hbroken
  | lose_down i k =>
    obtain ⟨hbroken, hst⟩ := Option.ite_none_right_eq_some.mp hx
    obtain rfl := Option.some.inj hst
    refine hinv.lose fun j hj => ⟨rfl, rfl, Function.update_of_ne ?_ _ _⟩
    rintro rfl
    exact hj hbroken
  | opened fd =>
    obtain ⟨m, hm, rfl⟩ := Option.map_eq_some_iff.mp hx
    obtain ⟨hmap, haddr, hfd⟩ := Master.exec_descriptor (.inl rfl) hm
    exact hinv.process hmap haddr hfd
  | closed fd =>
    obtain ⟨m, hm, rfl⟩ := Option.map_eq_some_iff.mp hx
    obtain ⟨hmap, haddr, hfd⟩ := Master.exec_descriptor (.inr rfl) hm
    exact hinv.process hmap haddr hfd

theorem inductive_inv : (system : TSys (Network μ) _).Inductive Inv where
  init s h₀ := by
    obtain rfl : s = create := h₀
    exact create_inv
  step _ _ _ _ hinv hx := hinv.step hx

/-! ## What is promised -/

/-- Nothing about the name is on the way between the harbor and the master. -/
def Quiet (s : Network μ) (i : ℕ) (name : List ℕ) : Prop :=
  (∀ p ∈ s.up i, ¬p.Registers name ∧ ¬p.Asks name) ∧ ∀ p ∈ s.down i, p.named name = none

/-- With nothing about a name on the way, a harbor has the handle of the master, or none. -/
theorem Joined.agrees (h₀ : s.Joined i) (hquiet : s.Quiet i name) :
    (REMOTE_MAX ≤ ((s.harbor i).map name).value.toNat →
      s.master.map name = some ((s.harbor i).map name).value.toNat) ∧
    (((s.harbor i).map name).queue.isSome → s.master.map name = none) := by
  obtain ⟨hup, hdown⟩ := hquiet
  constructor
  · intro hservice
    have hvalue := h₀.told.value name
    rw [latest_of_silent hdown] at hvalue
    rcases hvalue with ⟨p, hp, hreg⟩ | hsmall | hknown
    · exact absurd hreg (hup p hp).1
    · omega
    · exact hknown
  · intro hwaits
    rcases h₀.told.queue name hwaits with ⟨p, hp, hasks⟩ | ⟨p, hp, hnamed⟩ | hnone
    · exact absurd hasks (hup p hp).2
    · rw [hdown p hp] at hnamed
      cases hnamed
    · exact hnone

/-- **Names.** When nothing about a name is on the way between the master and a harbor whose link
never failed, the harbor has the master's handle for the name if it has one, no message waits for
a name the master knows, and any two such harbors have the same handle. -/
theorem names_agree (h : (system : TSys (Network μ) _).Reachable s) (hi : s.link i = .joined)
    (hquiet : s.Quiet i name) :
    (REMOTE_MAX ≤ ((s.harbor i).map name).value.toNat →
      s.master.map name = some ((s.harbor i).map name).value.toNat) ∧
    (((s.harbor i).map name).queue.isSome → s.master.map name = none) ∧
    ∀ j, s.link j = .joined → s.Quiet j name →
      REMOTE_MAX ≤ ((s.harbor i).map name).value.toNat →
      REMOTE_MAX ≤ ((s.harbor j).map name).value.toNat →
      ((s.harbor i).map name).value = ((s.harbor j).map name).value := by
  have hinv := inductive_inv.invariant s h
  obtain ⟨hvalue, hwaits⟩ := (hinv.joined i hi).agrees hquiet
  refine ⟨hvalue, hwaits, fun j hj hquiet' hle hle' => ?_⟩
  have hvalue' := ((hinv.joined j hj).agrees hquiet').1 hle'
  exact BitVec.eq_of_toNat_eq (Option.some.inj ((hvalue hle).symm.trans hvalue'))

/-- Two harbors report their addresses. -/
def joining : List (NetworkEv ℕ) :=
  [.start 1 ['a', ':', '1'], .start 2 ['b', ':', '2'],
    .report 1 0 (some 5) fun _ => ⟨false, none⟩, .report 2 0 (some 6) fun _ => ⟨false, none⟩,
    .tell 1 0 [] none, .tell 1 0 [] (some 7), .tell 2 0 [] none, .tell 2 0 [] (some 8)]

/-- A message of harbor 1 waits for a name, and harbor 2 registers the name. -/
def registering : List (NetworkEv ℕ) :=
  [.act 1 (.send_name (global_name [97]) 40 ⟨false, none⟩),
    .act 2 (.register_name (global_name [97]) 0x02000009 []),
    .report 1 0 none fun _ => ⟨false, none⟩, .report 2 0 none fun _ => ⟨false, none⟩,
    .tell 1 0 [⟨false, none⟩] none, .tell 2 0 [] none]

theorem names_agree_registered : ∃ s : Network ℕ, s.link 1 = .joined ∧
    s.master.map (global_name [97]) = some 0x02000009 ∧
    ((s.harbor 1).map (global_name [97])).value = ((s.harbor 2).map (global_name [97])).value := by
  obtain ⟨s, hreach, hs⟩ := TSys.reachable_of_exec (T := (system : TSys (Network ℕ) _))
    (fun _ _ _ hx => hx) (s := create) rfl (l := joining ++ registering)
    (p := fun s => decide (s.link 1 = .joined ∧ s.link 2 = .joined ∧
      s.up 1 = [] ∧ s.up 2 = [] ∧ s.down 1 = [] ∧ s.down 2 = [] ∧
      ((s.harbor 1).map (global_name [97])).value = 0x02000009 ∧
      ((s.harbor 2).map (global_name [97])).value = 0x02000009)) (by decide +kernel)
  obtain ⟨h1, h2, hu1, hu2, hd1, hd2, hv1, hv2⟩ := of_decide_eq_true hs
  have hquiet : ∀ j, s.up j = [] → s.down j = [] → s.Quiet j (global_name [97]) := by
    intro j hu hd
    unfold Quiet
    rw [hu, hd]
    exact ⟨by simp, by simp⟩
  obtain ⟨hvalue, -, hboth⟩ := names_agree hreach h1 (hquiet 1 hu1 hd1)
  refine ⟨s, h1, ?_, hboth 2 h2 (hquiet 2 hu2 hd2) ?_ ?_⟩
  · have hknown := hvalue (by rw [hv1]; decide)
    rw [hv1] at hknown
    exact hknown
  · rw [hv1]
    decide
  · rw [hv2]
    decide

/-- **Addresses.** When no address of a harbor is on the way to another one whose link never
failed, and the master is connected to the first, then the address that the other one keeps for
its connection is the one of the master. -/
theorem addresses_agree (h : (system : TSys (Network μ) _).Reachable s)
    (hi : s.link i = .joined) (hij : j ≠ i) (hquiet : ∀ p ∈ s.down i, p.handle.toNat ≠ j)
    (hmaster : (s.master.remote_fd j).isSome) (hfd : ((s.harbor i).remote_fd j).isSome)
    {addr : Addr} (haddr : (s.harbor i).remote_addr j = some addr) :
    s.master.remote_addr j = some addr := by
  have hinv := inductive_inv.invariant s h
  refine (hinv.joined i hi).placed j ((hinv.id i).symm ▸ hij) hmaster addr ?_
  have hsilent : ∀ p ∈ s.down i, p.placed j = none := fun p hp => if_neg (hquiet p hp)
  rw [latest_of_silent hsilent]
  unfold HarborState.view
  rw [if_pos hfd, haddr]

theorem addresses_agree_joined : ∃ s : Network ℕ, s.link 1 = .joined ∧
    s.master.remote_addr 2 = some ['b', ':', '2'] := by
  obtain ⟨s, hreach, hs⟩ := TSys.reachable_of_exec (T := (system : TSys (Network ℕ) _))
    (fun _ _ _ hx => hx) (s := create) rfl (l := joining)
    (p := fun s => decide (s.link 1 = .joined ∧ s.down 1 = [] ∧
      (s.master.remote_fd 2).isSome = true ∧ ((s.harbor 1).remote_fd 2).isSome = true ∧
      (s.harbor 1).remote_addr 2 = some ['b', ':', '2'])) (by decide +kernel)
  obtain ⟨h1, hd1, hmaster, hfd, haddr⟩ := of_decide_eq_true hs
  refine ⟨s, h1, addresses_agree hreach h1 (by decide) ?_ hmaster hfd haddr⟩
  rw [hd1]
  simp

/-! ## A report without an address -/

/-- The master takes a report of the harbor's address that it can connect to. -/
def Readdresses (j : ℕ) (s : Network μ) (e : NetworkEv μ) : Prop :=
  ∃ i k fd attempt p, e = .report i k fd attempt ∧ (s.up i)[k]? = some p ∧ p.Reports j ∧
    ':' ∈ addrOf p.body

/-- An address without a port is never connected to. -/
theorem before_unreachable (hb : m.before (p.toMaster fd attempt) = some r) (hp : p.Reports j)
    (hport : ':' ∉ addrOf p.body) : r.2 = none ∧ r.1.remote_fd j = none := by
  have hsome := (before_report (i := j) hb hp).2.1
  rw [hp.toMaster] at hb
  obtain ⟨-, hb⟩ := Option.ite_none_right_eq_some.mp hb
  obtain ⟨⟨m₁, b⟩, hreg, rfl⟩ := Option.map_eq_some_iff.mp hb
  cases b with
  | false => exact ⟨rfl, Option.not_isSome_iff_eq_none.mp (by rw [hsome]; simp)⟩
  | true =>
    unfold Master.register at hreg
    dsimp only at hreg
    split at hreg
    · cases hreg
    · cases hreg
    · rename_i hc
      exact absurd (Master.port_of_connect_to hc rfl) hport

/-- The master takes a package, and a harbor it is not connected to is sent nothing. -/
theorem report_unreached {n : ℕ}
    (hx : s.report k n (p.toMaster fd attempt) = some s')
    (hcase : (p.Reports j ∧ ':' ∉ addrOf p.body) ∨
      (¬p.Reports j ∧ s.master.remote_fd j = none)) :
    s'.master.remote_fd j = none ∧ s'.down j = s.down j := by
  obtain ⟨r, hb, hx⟩ := Option.bind_eq_some_iff.mp hx
  obtain ⟨m, hm, rfl⟩ := Option.map_eq_some_iff.mp hx
  have hnone : r.1.remote_fd j = none := by
    rcases hcase with ⟨hr, hport⟩ | ⟨hr, hfd⟩
    · exact (before_unreachable hb hr hport).2
    · rw [(before_table hb hr).2, hfd]
  refine ⟨?_, ?_⟩
  · by_contra hsome
    have hsome := (exec_table hb hm).2 j (Option.isSome_iff_ne_none.mpr hsome)
    rw [hnone] at hsome
    cases hsome
  · show s.down j ++ s.master.sends _ r j = s.down j
    unfold Master.sends Master.reaches
    rcases hcase with ⟨hr, hport⟩ | ⟨hr, -⟩
    · rw [(before_unreachable hb hr hport).1, List.append_nil]
    · cases r.2 with
      | none => exact List.append_nil _
      | some a =>
        dsimp only
        rw [hnone, greeting_other hr]
        exact List.append_nil _

/-- A harbor that the master has no connection to is told nothing more. -/
theorem unreached_step {e : NetworkEv μ} (hnone : s.master.remote_fd j = none)
    (hnot : ¬Readdresses j s e) (hx : s.exec e = some s') :
    s'.master.remote_fd j = none ∧ (s'.down j).Sublist (s.down j) := by
  cases e with
  | start i addr =>
    obtain ⟨-, hst⟩ := Option.ite_none_right_eq_some.mp hx
    obtain rfl := Option.some.inj hst
    exact ⟨hnone, .refl _⟩
  | act i e =>
    obtain ⟨-, hx⟩ := Option.ite_none_right_eq_some.mp hx
    obtain ⟨h, -, rfl⟩ := Option.map_eq_some_iff.mp hx
    exact ⟨hnone, .refl _⟩
  | report i k fd attempt =>
    obtain ⟨-, hx⟩ := Option.ite_none_right_eq_some.mp hx
    obtain ⟨p, hp, hx⟩ := Option.bind_eq_some_iff.mp hx
    -- the number is reported without an address, or it is another one
    have hcase : (p.Reports j ∧ ':' ∉ addrOf p.body) ∨
        (¬p.Reports j ∧ s.master.remote_fd j = none) := by
      by_cases hr : p.Reports j
      · exact .inl ⟨hr, fun hport => hnot ⟨i, k, fd, attempt, p, rfl, hp, hr, hport⟩⟩
      · exact .inr ⟨hr, hnone⟩
    obtain ⟨hfd, hdown⟩ := report_unreached hx hcase
    rw [hdown]
    exact ⟨hfd, .refl _⟩
  | tell i k attempts connect =>
    obtain ⟨-, hx⟩ := Option.ite_none_right_eq_some.mp hx
    obtain ⟨p, -, hx⟩ := Option.bind_eq_some_iff.mp hx
    obtain ⟨h, -, rfl⟩ := Option.map_eq_some_iff.mp hx
    refine ⟨hnone, ?_⟩
    show (Function.update s.down i _ j).Sublist _
    by_cases hj : j = i
    · subst hj
      rw [Function.update_self]
      exact List.eraseIdx_sublist ..
    · rw [Function.update_of_ne hj]
  | breaks i =>
    obtain rfl := Option.some.inj hx
    exact ⟨hnone, .refl _⟩
  | lose_up i k =>
    obtain ⟨-, hst⟩ := Option.ite_none_right_eq_some.mp hx
    obtain rfl := Option.some.inj hst
    exact ⟨hnone, .refl _⟩
  | lose_down i k =>
    obtain ⟨-, hst⟩ := Option.ite_none_right_eq_some.mp hx
    obtain rfl := Option.some.inj hst
    refine ⟨hnone, ?_⟩
    show (Function.update s.down i _ j).Sublist _
    by_cases hj : j = i
    · subst hj
      rw [Function.update_self]
      exact List.eraseIdx_sublist ..
    · rw [Function.update_of_ne hj]
  | opened fd =>
    obtain ⟨m, hm, rfl⟩ := Option.map_eq_some_iff.mp hx
    exact ⟨(congrFun (Master.exec_descriptor (.inl rfl) hm).2.2 j).trans hnone, .refl _⟩
  | closed fd =>
    obtain ⟨m, hm, rfl⟩ := Option.map_eq_some_iff.mp hx
    exact ⟨(congrFun (Master.exec_descriptor (.inr rfl) hm).2.2 j).trans hnone, .refl _⟩

theorem unreached_run {es : List (NetworkEv μ)} {t : Network μ}
    (hrun : (system.restrict fun s e => ¬Readdresses j s e).Run s es t)
    (hnone : s.master.remote_fd j = none) :
    t.master.remote_fd j = none ∧ (t.down j).Sublist (s.down j) := by
  induction hrun with
  | nil => exact ⟨hnone, .refl _⟩
  | cons hstep _ ih =>
    obtain ⟨hnone', hsub⟩ := unreached_step hnone hstep.1 hstep.2
    obtain ⟨hend, hsub'⟩ := ih hnone'
    exact ⟨hend, hsub'.trans hsub⟩

/-- A message for a harbor that is not connected: its number is reported. -/
theorem requests_lacks {h : HarborState (List ℕ) μ} {e : HarborEv (List ℕ) μ}
    (hfor : h.MessageFor j e) (hj : j ≠ 0) (hid : j ≠ h.id) (hfd : h.remote_fd j = none) :
    h.requests e = [⟨harbor_handle j, []⟩] ∧ (⟨harbor_handle j, []⟩ : Package).Reports j := by
  have hasks : ∀ destination, harborOf destination = j →
      h.asksFor destination = [⟨harbor_handle j, []⟩] := by
    rintro destination rfl
    exact if_pos ⟨hid, hfd⟩
  have hlt : j < REMOTE_MAX := by
    cases e with
    | send_handle destination attempt => exact hfor ▸ harborOf_lt destination
    | send_name name x y => exact hfor.2 ▸ harborOf_lt _
    | _ => exact hfor.elim
  have htoNat := toNat_harbor_handle hlt
  refine ⟨?_, fun hzero => hj ?_, htoNat, hlt⟩
  · cases e with
    | send_handle destination attempt => exact hasks destination hfor
    | send_name name x y => exact (if_neg hfor.1).trans (hasks _ hfor.2)
    | _ => exact hfor.elim
  · have hzero : harbor_handle j = 0 := hzero
    rw [← htoNat, hzero]
    rfl

/-- **Cut off.** A harbor that has a message for another one it has no connection to reports the
other one's number without an address. When the master takes this, it closes its own connection to
the other one, and whatever happens then, tells it nothing more until it reports its address once
more. -/
theorem cut_off {es : List (NetworkEv μ)} {t : Network μ} {n : ℕ} :
    (∀ (u u' : Network μ) i e, (u.harbor i).MessageFor j e → j ≠ 0 → j ≠ (u.harbor i).id →
      (u.harbor i).remote_fd j = none → u.exec (.act i e) = some u' →
        ∃ p : Package, u'.up i = u.up i ++ [p] ∧ p.Reports j ∧ p.body = []) ∧
    ∀ p : Package, (s.up k)[n]? = some p → p.Reports j → ':' ∉ addrOf p.body →
      s.exec (.report k n fd attempt) = some s' →
      (system.restrict fun s e => ¬Readdresses j s e).Run s' es t →
        t.master.remote_fd j = none ∧ (t.down j).Sublist (s.down j) := by
  constructor
  · intro u u' i e hfor hj hid hfd hx
    obtain ⟨hrequests, hreports⟩ := requests_lacks hfor hj hid hfd
    obtain ⟨-, hact⟩ := Option.ite_none_right_eq_some.mp hx
    obtain ⟨h', -, rfl⟩ := Option.map_eq_some_iff.mp hact
    refine ⟨_, ?_, hreports, rfl⟩
    show Function.update u.up i (u.up i ++ (u.harbor i).requests e) i = _
    rw [Function.update_self, hrequests]
  · intro p hp hr hport hx hrun
    obtain ⟨-, hreport⟩ := Option.ite_none_right_eq_some.mp hx
    obtain ⟨q, hq, hreport⟩ := Option.bind_eq_some_iff.mp hreport
    obtain rfl := Option.some.inj (hp.symm.trans hq)
    obtain ⟨hnone, hdown⟩ := report_unreached hreport (.inl ⟨hr, hport⟩)
    rw [← hdown]
    exact unreached_run hrun hnone

/-- Harbor 1 fails to connect to harbor 2, sends a message there, and then registers a name. -/
theorem cut_off_sending : ∃ s t : Network ℕ, system.Reachable s ∧
    (s.master.remote_fd 2).isSome = true ∧ t.master.remote_fd 2 = none ∧
    (t.down 2).Sublist (s.down 2) := by
  obtain ⟨s, hreach, hs⟩ := TSys.reachable_of_exec (T := (system : TSys (Network ℕ) _))
    (fun _ _ _ hx => hx) (s := create) rfl (l := joining.take 5 ++
      [.tell 1 0 [] none, .act 1 (.send_handle 0x02000009 ⟨false, none⟩)])
    (p := fun s => decide ((s.up 1)[0]? = some (⟨2, []⟩ : Package) ∧
      (s.master.remote_fd 2).isSome = true ∧
      ((s.exec (.report 1 0 none fun _ => ⟨false, none⟩)).bind fun s' =>
        s'.exec (.act 1 (.register_name (global_name [97]) 0x01000009 []))).isSome = true))
    (by decide +kernel)
  obtain ⟨hp, hfd, hboth⟩ := of_decide_eq_true hs
  obtain ⟨t, ht⟩ := Option.isSome_iff_exists.mp hboth
  obtain ⟨s', hreport, hact⟩ := Option.bind_eq_some_iff.mp ht
  refine ⟨s, t, hreach, hfd, cut_off.2 _ hp ⟨by decide, by decide, by decide⟩
    (by decide) hreport (.cons ⟨?_, hact⟩ (.nil t))⟩
  rintro ⟨_, _, _, _, _, heq, -⟩
  cases heq

end Network

end DnServer.Harbor
