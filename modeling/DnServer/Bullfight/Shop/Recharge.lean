import DnServer.Lib.Transition
import DnServer.Bullfight.Shop.Step

/-!
# Orders that are paid for

`ADMIN_SOMEONE_SHOP` tells of a paid order. The handler reads the order, asks whether it
is the player's first, has the shop store the goods and, behind the shop's answer, the
free cards, and waits at each of the four calls; the last statement of the goods'
`SQL_SHOP` marks the order as delivered. `noteCredits` keeps what was stored for which
order.

* `sqlShop_case`: what `SQL_SHOP` can come to, a raise half way included.
* `Settled.step`: an order that was credited is marked and read by no handler, and at
  most one handler has its free cards to give; each phase by its own lemma.
* `once_of_undisturbed`: from it by induction; in `order_credited_twice` both
  notifications read before either stores.
-/

namespace DnServer.Bullfight

open DnServer.Lib

namespace Shop

/-! ## Notifications -/

/-- Where a suspended handler stands; the request it names is sent. -/
inductive Phase
  /-- `SQL_GET_ORDER`. -/
  | ordering (order_nu : OrderNu)
  /-- `SQL_FIRST_BUYER`. -/
  | buying (order_nu : OrderNu) (order : Order)
  /-- `EVENT_SHOP`. -/
  | shopping (conf : Conf)
  /-- `SQL_SHOP`, with the request for the free cards that follows. -/
  | storing (msg : Msg) (sendtool : Option Msg)
  /-- `SQL_SHOP` of the free cards, behind the answer `succ`. -/
  | giving (sendtool : Msg) (order_nu : Option OrderNu) (succ : Bool)
deriving DecidableEq

/-- The database, the shop's goods and the suspended handlers. -/
structure State where
  db : Database
  goods : GoodsTable
  handlers : List Phase
deriving DecidableEq

def State.suspend (s : State) (phase : Phase) : State :=
  { s with handlers := s.handlers ++ [phase] }

/-- What a handler's request meets: the order's query and the first buyer's may fail. -/
structure Env where
  readOrder : Bool
  readBuyer : Bool
  outcomes : Outcomes

/-- The request a notification makes of an order. -/
def orderConf (order_nu : OrderNu) (order : Order) (firstbuy : Option ℕ) : Conf where
  uid := order.suid
  fid := order.uid
  goodsid := order.goodsid
  count := order.goodsnum
  firstbuy := firstbuy
  order_nu := some order_nu
  isshop := true
  resean := none

/-- `EVENT_SHOP` up to `SQL_SHOP`. Unknown goods are not stored, but the free cards
are. -/
def eventShop (now : ℤ) (s : State) (conf : Conf) : State :=
  let sendtool := freeCard now s.goods conf
  match s.goods.get? conf.goodsid with
  | some tool => s.suspend (.storing (shopMsg now tool conf) sendtool)
  | none =>
    match sendtool with
    | some sendtool => s.suspend (.giving sendtool conf.order_nu false)
    | none => s

/-- The request of a suspended handler is served, and the handler goes on up to its
next request. -/
def advance (env : Env) (s : State) : Phase → State
  | .ordering order_nu =>
    if env.readOrder then
      match sqlGetOrder s.db order_nu with
      | some order => s.suspend (.buying order_nu order)
      | none => s
    else s
  | .buying order_nu order =>
    let firstbuy :=
      if env.readBuyer then some (if sqlFirstBuyer s.db order.uid = 0 then 0 else 1) else none
    s.suspend (.shopping (orderConf order_nu order firstbuy))
  | .shopping conf => eventShop env.outcomes.now s conf
  | .storing msg sendtool =>
    let r := sqlShop env.outcomes s.db msg
    let s := { s with db := r.1 }
    match r.2, sendtool with
    | .answered succ, some sendtool => s.suspend (.giving sendtool msg.order_nu succ)
    | _, _ => s
  | .giving sendtool _ _ => { s with db := (sqlShop env.outcomes s.db sendtool).1 }

inductive Event
  /-- `ADMIN_SOMEONE_SHOP`. -/
  | notify (order_nu : OrderNu)
  /-- Another caller's `EVENT_SHOP`, which has no order number. -/
  | shop (conf : Conf)
  /-- The suspended handler number `i` goes on. -/
  | advance (i : ℕ) (env : Env)
  /-- A player buys; the order is not delivered yet. -/
  | newOrder (order_nu : OrderNu) (order : Order)
  /-- Other services write players' money and tools. -/
  | others (gamecurrency : Table Uid ℤ) (tools : List ToolRow)

/-- One step; `none` where it cannot be taken. -/
def exec (s : State) : Event → Option State
  | .notify order_nu => some (s.suspend (.ordering order_nu))
  | .shop conf => some (s.suspend (.shopping { conf with order_nu := none, isshop := false }))
  | .advance i env =>
    (s.handlers[i]?).map fun phase => advance env { s with handlers := s.handlers.eraseIdx i } phase
  | .newOrder order_nu order =>
    if order_nu ∈ s.db.recharge ∨ order.responsestatus = 3 then none
    else some { s with db := { s.db with recharge := s.db.recharge.set order_nu order } }
  | .others gamecurrency tools =>
    some { s with db := { s.db with gamecurrency := gamecurrency, tools := tools } }

/-- No handler is under way. -/
def system : TSys State Event where
  init s := s.handlers = []
  step s e t := exec s e = some t

theorem exec_step (s : State) (e : Event) (t : State) (h : exec s e = some t) :
    system.step s e t := h

/-! ## Credits -/

/-- The handler an event lets go on. -/
def handlerOf (s : State) : Event → Option Phase
  | .advance i _ => s.handlers[i]?
  | _ => none

/-- A purchase stores something: the player's money or tools are not as before. -/
def stores (o : Outcomes) (db : Database) (msg : Msg) : Bool :=
  (sqlShop o db msg).1.gamecurrency ≠ db.gamecurrency ∨ (sqlShop o db msg).1.tools ≠ db.tools

/-- What an order brings. -/
inductive Part
  | goods
  | cards
deriving DecidableEq

/-- What was stored for orders, once for each time. -/
abbrev Credits := List (OrderNu × Part)

/-- The order a purchase is credited for. -/
def creditOf (o : Outcomes) (db : Database) : Phase → Option (OrderNu × Part)
  | .storing msg _ => if stores o db msg then msg.order_nu.map (·, .goods) else none
  | .giving sendtool order_nu _ =>
    if stores o db sendtool then order_nu.map (·, .cards) else none
  | _ => none

def noteCredits (s : State) (e : Event) (_t : State) (credits : Credits) : Credits :=
  match e with
  | .advance _ env =>
    ((handlerOf s e).bind (creditOf env.outcomes s.db)).toList ++ credits
  | _ => credits

/-- The shop with a note of what was credited. -/
def crediting : TSys (State × Credits) Event := system.observe (fun _ => []) noteCredits

/-- No order is credited its goods or its free cards twice. -/
def Once (p : State × Credits) : Prop := p.2.Nodup

/-- The order that a handler has read and not yet stored. -/
def Phase.read : Phase → Option OrderNu
  | .buying order_nu _ => some order_nu
  | .shopping conf => conf.order_nu
  | .storing msg _ => msg.order_nu
  | _ => none

/-- A purchase that ends half way stores nothing, the goods of an order are stored while none
of the other handlers has read it, and its free cards only behind a success. -/
def Phase.Undisturbed (o : Outcomes) (db : Database) (others : List Phase) : Phase → Prop
  | .storing msg _ => ∀ order_nu ∈ msg.order_nu, (Grants o db msg → Completes o msg) ∧
      (Known o db msg ∧ Completes o msg → ∀ phase ∈ others, phase.read ≠ some order_nu)
  | .giving sendtool (some _) succ => Grants o db sendtool → succ = true
  | _ => True

instance (o : Outcomes) (db : Database) (others : List Phase) :
    (phase : Phase) → Decidable (phase.Undisturbed o db others)
  | .storing msg _ => inferInstanceAs (Decidable (∀ order_nu ∈ msg.order_nu,
      (Grants o db msg → Completes o msg) ∧
        (Known o db msg ∧ Completes o msg → ∀ phase ∈ others, phase.read ≠ some order_nu)))
  | .giving sendtool (some _) succ =>
    inferInstanceAs (Decidable (Grants o db sendtool → succ = true))
  | .giving _ none _ => .isTrue trivial
  | .ordering _ => .isTrue trivial
  | .buying _ _ => .isTrue trivial
  | .shopping _ => .isTrue trivial

/-- The handler that goes on is undisturbed by the outcomes of its statements and by the other
handlers. -/
def Undisturbed (p : State × Credits) : Event → Prop
  | .advance i env => ∀ phase ∈ p.1.handlers[i]?,
      phase.Undisturbed env.outcomes p.1.db (p.1.handlers.eraseIdx i)
  | _ => True

instance (p : State × Credits) : (e : Event) → Decidable (Undisturbed p e)
  | .advance i env => inferInstanceAs (Decidable (∀ phase ∈ p.1.handlers[i]?,
      phase.Undisturbed env.outcomes p.1.db (p.1.handlers.eraseIdx i)))
  | .newOrder _ _ => .isTrue trivial
  | .notify _ => .isTrue trivial
  | .shop _ => .isTrue trivial
  | .others _ _ => .isTrue trivial

/-! ## What a step credits and marks -/

/-- The order is marked as delivered. -/
def Marked (db : Database) (order_nu : OrderNu) : Prop :=
  ∃ order, db.recharge.get? order_nu = some order ∧ order.responsestatus = 3

theorem getOrder_spec {db : Database} {order_nu : OrderNu} {order : Order}
    (h : sqlGetOrder db order_nu = some order) :
    order_nu ∈ db.recharge ∧ ¬ Marked db order_nu := by
  obtain ⟨hget, hopen⟩ := Option.filter_eq_some_iff.mp h
  refine ⟨Table.mem_of_get? hget, ?_⟩
  rintro ⟨order', hget', hstatus⟩
  obtain rfl := Option.some.inj (hget.symm.trans hget')
  simp [hstatus] at hopen

theorem markOrder_keeps (o : Outcomes) {db : Database} (msg : Msg) {order_nu : OrderNu}
    (h : Marked db order_nu) : Marked (markOrder o db msg).1 order_nu := by
  obtain ⟨order, horder, hstatus⟩ := h
  unfold markOrder
  cases msg.order_nu with
  | none => exact ⟨order, horder, hstatus⟩
  | some k =>
    cases o.markOrder with
    | false => exact ⟨order, horder, hstatus⟩
    | true =>
      by_cases hk : order_nu = k
      · subst hk
        refine ⟨{ order with responsestatus := 3 }, ?_, rfl⟩
        exact (Table.get?_modify_self _ _ _).trans (congrArg _ horder)
      · exact ⟨order, (Table.get?_modify_ne _ _ hk).trans horder, hstatus⟩

theorem markOrder_marks {o : Outcomes} {db : Database} {msg : Msg} {order_nu : OrderNu}
    (ho : o.markOrder = true) (hmsg : msg.order_nu = some order_nu)
    (hmem : order_nu ∈ db.recharge) : Marked (markOrder o db msg).1 order_nu := by
  obtain ⟨order, horder⟩ := Table.mem_iff_get?.mp hmem
  unfold markOrder
  rw [hmsg]
  simp only [ho, if_true]
  refine ⟨{ order with responsestatus := 3 }, ?_, rfl⟩
  exact (Table.get?_modify_self _ _ _).trans (congrArg _ horder)

theorem sqlShop_keeps (o : Outcomes) {db : Database} (msg : Msg) {order_nu : OrderNu}
    (h : Marked db order_nu) : Marked (sqlShop o db msg).1 order_nu := by
  have hcase := sqlShop_case o db msg
  generalize sqlShop o db msg = r at hcase ⊢
  cases hcase with
  | paid => exact markOrder_keeps o msg h
  | toolsOnly => exact markOrder_keeps o msg h
  | _ => exact h

/-- The goods of an order are answered with success exactly if no statement fails,
and then the order is marked. -/
theorem sqlShop_answered {o : Outcomes} {db : Database} {msg : Msg} {order_nu : OrderNu}
    (hmsg : msg.order_nu = some order_nu) :
    ((sqlShop o db msg).2 = .answered true → Known o db msg ∧ Completes o msg) ∧
      (Known o db msg ∧ Completes o msg → order_nu ∈ db.recharge →
        Marked (sqlShop o db msg).1 order_nu) := by
  have hmark : ∀ db', (markOrder o db' msg).2 = .answered true → o.markOrder = true := by
    intro db' h
    unfold markOrder at h
    rw [hmsg] at h
    by_contra hnot
    simp [hnot] at h
  have hcase := sqlShop_case o db msg
  generalize sqlShop o db msg = r at hcase ⊢
  cases hcase with
  | unknown hunknown => exact ⟨nofun, fun h => absurd h.1 hunknown⟩
  | toolFailed _ hfailed => exact ⟨nofun, fun h => absurd h.2.1 hfailed⟩
  | moneyFailed _ _ hmoney hfailed =>
    refine ⟨nofun, fun h => ?_⟩
    rw [(h.2.2.1 hmoney).1] at hfailed
    cases hfailed
  | logFailed _ _ hmoney _ hfailed =>
    refine ⟨nofun, fun h => ?_⟩
    rw [(h.2.2.1 hmoney).2] at hfailed
    cases hfailed
  | paid hknown hall hmoney hadd hlogs =>
    exact ⟨fun h => ⟨hknown, hall, fun _ => ⟨hadd, hlogs⟩, hmark _ h⟩,
      fun h hmem => markOrder_marks h.2.2.2 hmsg hmem⟩
  | toolsOnly hknown hall hmoney =>
    exact ⟨fun h => ⟨hknown, hall, fun hne => absurd hmoney hne, hmark _ h⟩,
      fun h hmem => markOrder_marks h.2.2.2 hmsg hmem⟩

theorem stores_grants {o : Outcomes} {db : Database} {msg : Msg} (h : stores o db msg = true) :
    Grants o db msg := by
  by_contra hnot
  obtain ⟨hmoney, htools⟩ := sqlShop_of_not_grants hnot
  unfold stores at h
  simp [hmoney, htools] at h

theorem advance_storing_db (env : Env) (s : State) (msg : Msg) (sendtool : Option Msg) :
    (advance env s (.storing msg sendtool)).db = (sqlShop env.outcomes s.db msg).1 := by
  unfold advance
  cases h : (sqlShop env.outcomes s.db msg).2 with
  | answered => cases sendtool <;> simp [h, State.suspend]
  | raised => simp [h]

/-- Behind the goods of an order at most the free cards are left to give. -/
theorem advance_storing_handlers (env : Env) (s : State) (msg : Msg) (sendtool : Option Msg) :
    ∃ next : Option Phase, (advance env s (.storing msg sendtool)).handlers =
      s.handlers ++ next.toList ∧ ∀ phase ∈ next, ∃ cards succ, phase = .giving cards msg.order_nu succ := by
  unfold advance
  cases h : (sqlShop env.outcomes s.db msg).2 with
  | answered succ =>
    cases sendtool with
    | none => exact ⟨none, by simp [h], fun _ hm => absurd hm (Option.not_mem_none _)⟩
    | some cards =>
      refine ⟨some (.giving cards msg.order_nu succ), by simp [h, State.suspend], ?_⟩
      rintro _ ⟨⟩
      exact ⟨cards, succ, rfl⟩
  | raised => exact ⟨none, by simp [h], fun _ hm => absurd hm (Option.not_mem_none _)⟩

/-- The database behind a step of a handler. -/
theorem advance_db (env : Env) (s : State) (phase : Phase) :
    (advance env s phase).db = s.db ∨
      ∃ msg, (advance env s phase).db = (sqlShop env.outcomes s.db msg).1 := by
  cases phase with
  | ordering order_nu =>
    unfold advance
    cases env.readOrder with
    | false => exact .inl rfl
    | true => cases horder : sqlGetOrder s.db order_nu <;> simp [horder, State.suspend]
  | buying order_nu order => exact .inl rfl
  | shopping conf =>
    left
    show (eventShop env.outcomes.now s conf).db = s.db
    unfold eventShop
    cases s.goods.get? conf.goodsid with
    | some tool => rfl
    | none => cases freeCard env.outcomes.now s.goods conf <;> rfl
  | storing msg sendtool => exact .inr ⟨msg, advance_storing_db env s msg sendtool⟩
  | giving sendtool order_nu succ => exact .inr ⟨sendtool, rfl⟩

/-- The orders behind a step: a purchase marks one, and a new one was not there. -/
theorem exec_recharge {s t : State} {e : Event} (h : exec s e = some t) :
    t.db.recharge = s.db.recharge ∨ (∃ o msg, t.db = (sqlShop o s.db msg).1) ∨
      ∃ k order, k ∉ s.db.recharge ∧ t.db.recharge = s.db.recharge.set k order := by
  cases e with
  | advance i env =>
    obtain ⟨phase, -, rfl⟩ := Option.map_eq_some_iff.mp h
    rcases advance_db env { s with handlers := s.handlers.eraseIdx i } phase with
      hdb | ⟨msg, hdb⟩
    · exact .inl (congrArg _ hdb)
    · exact .inr (.inl ⟨_, msg, hdb⟩)
  | newOrder k order =>
    unfold exec at h
    by_cases hk : k ∈ s.db.recharge ∨ order.responsestatus = 3
    · simp [hk] at h
    · simp only [if_neg hk, Option.some.injEq] at h
      subst h
      exact .inr (.inr ⟨k, order, fun hmem => hk (.inl hmem), rfl⟩)
  | _ =>
    obtain rfl := Option.some.inj h
    exact .inl rfl

/-- What is marked stays marked. -/
theorem marked_step {s t : State} {e : Event} (h : exec s e = some t) {order_nu : OrderNu}
    (hm : Marked s.db order_nu) : Marked t.db order_nu := by
  rcases exec_recharge h with hsame | ⟨o, msg, hdb⟩ | ⟨k, order, hk, hset⟩
  · unfold Marked
    rwa [hsame]
  · rw [hdb]
    exact sqlShop_keeps o msg hm
  · obtain ⟨old, hold, hstatus⟩ := hm
    refine ⟨old, ?_, hstatus⟩
    rw [hset, Table.get?_set_ne, hold]
    rintro rfl
    exact hk (Table.mem_of_get? hold)

/-- An order is not taken out of the table. -/
theorem recharge_step {s t : State} {e : Event} (h : exec s e = some t) {order_nu : OrderNu}
    (hm : order_nu ∈ s.db.recharge) : order_nu ∈ t.db.recharge := by
  rcases exec_recharge h with hsame | ⟨o, msg, hdb⟩ | ⟨k, order, -, hset⟩
  · rwa [hsame]
  · rw [hdb]
    exact sqlShop_mem o msg hm
  · rw [hset]
    exact Table.mem_set.mpr (.inr hm)

/-- The handler is to store the free cards of an order that was stored with success. -/
def Phase.gives (order_nu : OrderNu) : Phase → Bool
  | .giving _ k succ => succ ∧ k = some order_nu
  | _ => false

/-- A handler that goes on has read what it had read before or finds the order open, and
gives free cards behind a success. -/
theorem advance_handlers (env : Env) (s : State) (phase : Phase) :
    (advance env s phase).handlers = s.handlers ∨
      ∃ next : Phase, (advance env s phase).handlers = s.handlers ++ [next] ∧
        (∀ k, next.read = some k →
          phase.read = some k ∨ k ∈ s.db.recharge ∧ ¬ Marked s.db k) ∧
        ∀ k, next.gives k = true → ∃ msg sendtool, phase = .storing msg sendtool ∧
          msg.order_nu = some k ∧ (sqlShop env.outcomes s.db msg).2 = .answered true := by
  cases phase with
  | ordering order_nu =>
    unfold advance
    cases env.readOrder with
    | false => exact .inl rfl
    | true =>
      cases horder : sqlGetOrder s.db order_nu with
      | none => exact .inl (by simp [horder])
      | some order =>
        refine .inr ⟨.buying order_nu order, by simp [horder, State.suspend], ?_, nofun⟩
        rintro _ ⟨⟩
        exact .inr (getOrder_spec horder)
  | buying order_nu order =>
    refine .inr ⟨_, rfl, ?_, nofun⟩
    rintro _ ⟨⟩
    exact .inl rfl
  | shopping conf =>
    show (eventShop env.outcomes.now s conf).handlers = _ ∨ ∃ next : Phase,
      (eventShop env.outcomes.now s conf).handlers = _ ∧ _
    unfold eventShop
    cases s.goods.get? conf.goodsid with
    | some tool =>
      refine .inr ⟨_, rfl, fun k hk => .inl ?_, nofun⟩
      exact (shopMsg_order_nu env.outcomes.now tool conf).symm.trans hk
    | none =>
      cases freeCard env.outcomes.now s.goods conf with
      | none => exact .inl rfl
      | some sendtool => exact .inr ⟨_, rfl, nofun, fun k hk => by simp [Phase.gives] at hk⟩
  | storing msg sendtool =>
    unfold advance
    cases h : (sqlShop env.outcomes s.db msg).2 with
    | raised => exact .inl (by simp [h])
    | answered succ =>
      cases sendtool with
      | none => exact .inl (by simp [h])
      | some sendtool =>
        refine .inr ⟨.giving sendtool msg.order_nu succ, by simp [h, State.suspend], nofun, ?_⟩
        intro k hk
        obtain ⟨rfl, hmsg⟩ := of_decide_eq_true hk
        exact ⟨msg, _, rfl, hmsg, h⟩
  | giving sendtool order_nu succ => exact .inl rfl

/-- Who has read an order after a step had read it before, or finds it open. -/
theorem read_step {s t : State} {e : Event} (h : exec s e = some t) {phase : Phase}
    (hmem : phase ∈ t.handlers) {k : OrderNu} (hread : phase.read = some k) :
    (∃ old ∈ s.handlers, old.read = some k) ∨ k ∈ s.db.recharge ∧ ¬ Marked s.db k := by
  cases e with
  | notify order_nu =>
    obtain rfl := Option.some.inj h
    rcases List.mem_append.mp hmem with hold | hnew
    · exact .inl ⟨phase, hold, hread⟩
    · obtain rfl := List.mem_singleton.mp hnew
      cases hread
  | shop conf =>
    obtain rfl := Option.some.inj h
    rcases List.mem_append.mp hmem with hold | hnew
    · exact .inl ⟨phase, hold, hread⟩
    · obtain rfl := List.mem_singleton.mp hnew
      cases hread
  | advance i env =>
    obtain ⟨old, hold, rfl⟩ := Option.map_eq_some_iff.mp h
    have hrest : phase ∈ s.handlers.eraseIdx i → ∃ old ∈ s.handlers, old.read = some k :=
      fun hm => ⟨phase, List.mem_of_mem_eraseIdx hm, hread⟩
    rcases advance_handlers env { s with handlers := s.handlers.eraseIdx i } old with
      heq | ⟨next, heq, hnext, -⟩
    · rw [heq] at hmem
      exact .inl (hrest hmem)
    · rw [heq] at hmem
      rcases List.mem_append.mp hmem with hm | hnew
      · exact .inl (hrest hm)
      · obtain rfl := List.mem_singleton.mp hnew
        rcases hnext k hread with hk | hopen
        · exact .inl ⟨old, List.mem_of_getElem? hold, hk⟩
        · exact .inr hopen
  | newOrder order_nu order =>
    unfold exec at h
    by_cases hk : order_nu ∈ s.db.recharge ∨ order.responsestatus = 3
    · simp [hk] at h
    · simp only [if_neg hk, Option.some.injEq] at h
      subst h
      exact .inl ⟨phase, hmem, hread⟩
  | others gamecurrency tools =>
    obtain rfl := Option.some.inj h
    exact .inl ⟨phase, hmem, hread⟩

/-! ## Credited once -/

/-- The order is marked, and no notification is about to store it. -/
def Done (s : State) (order_nu : OrderNu) : Prop :=
  Marked s.db order_nu ∧ ∀ phase ∈ s.handlers, phase.read ≠ some order_nu

theorem Done.step {s t : State} {k : OrderNu} (h : Done s k) {e : Event}
    (hexec : exec s e = some t) : Done t k := by
  refine ⟨marked_step hexec h.1, fun phase hmem hread => ?_⟩
  rcases read_step hexec hmem hread with ⟨old, hold, hk⟩ | ⟨-, hopen⟩
  · exact h.2 old hold hk
  · exact hopen h.1

/-- Every order that was credited is done with, up to its free cards, which one handler
may have still to give. -/
structure Settled (p : State × Credits) : Prop where
  once : Once p
  done : ∀ x ∈ p.2, Done p.1 x.1
  given : ∀ k, 0 < p.1.handlers.countP (Phase.gives k) → Done p.1 k
  cards : ∀ k, p.1.handlers.countP (Phase.gives k) + p.2.count (k, .cards) ≤ 1
  reads : ∀ phase ∈ p.1.handlers, ∀ k, phase.read = some k → k ∈ p.1.db.recharge

variable {p q : State × Credits} {e : Event}

theorem Settled.reads_step (h : Settled p) (hexec : exec p.1 e = some q.1) :
    ∀ phase ∈ q.1.handlers, ∀ k, phase.read = some k → k ∈ q.1.db.recharge := by
  intro phase hmem k hread
  rcases read_step hexec hmem hread with ⟨old, hold, hk⟩ | ⟨hk, -⟩
  · exact recharge_step hexec (h.reads old hold k hk)
  · exact recharge_step hexec hk

/-- Nothing is credited, and no handler more is to give free cards. -/
theorem Settled.quiet (h : Settled p) (hexec : exec p.1 e = some q.1) (hcredits : q.2 = p.2)
    (hgives : ∀ k, q.1.handlers.countP (Phase.gives k) ≤ p.1.handlers.countP (Phase.gives k)) :
    Settled q where
  once := by
    unfold Once
    rw [hcredits]
    exact h.once
  done x hx := (h.done x (hcredits ▸ hx)).step hexec
  given k hk := (h.given k (hk.trans_le (hgives k))).step hexec
  cards k := by
    rw [hcredits]
    exact (Nat.add_le_add_right (hgives k) _).trans (h.cards k)
  reads := h.reads_step hexec

/-- The handlers that are left, and the one that goes on. -/
theorem countP_eraseIdx_add {l : List Phase} {i : ℕ} {phase : Phase} (h : l[i]? = some phase)
    (f : Phase → Bool) : l.countP f = (l.eraseIdx i).countP f + if f phase then 1 else 0 := by
  obtain ⟨hi, rfl⟩ := List.getElem?_eq_some_iff.mp h
  rw [← (List.getElem_cons_eraseIdx_perm hi).countP_eq, List.countP_cons]

/-- What a step of a handler does to the handlers. -/
theorem advance_exec {s t : State} {i : ℕ} {env : Env} {phase : Phase}
    (h : exec s (.advance i env) = some t) (hphase : s.handlers[i]? = some phase) :
    t = advance env { s with handlers := s.handlers.eraseIdx i } phase := by
  obtain ⟨phase', hi, hgoes⟩ := Option.map_eq_some_iff.mp h
  obtain rfl := Option.some.inj (hi.symm.trans hphase)
  exact hgoes.symm

/-- Only a success for the goods of an order adds a handler that gives its free cards. -/
theorem countP_gives {s t : State} {i : ℕ} {env : Env} {phase : Phase} {k : OrderNu}
    (h : exec s (.advance i env) = some t) (hphase : s.handlers[i]? = some phase)
    (hno : ∀ msg sendtool, phase = .storing msg sendtool → msg.order_nu = some k →
      (sqlShop env.outcomes s.db msg).2 ≠ .answered true) :
    t.handlers.countP (Phase.gives k) ≤ (s.handlers.eraseIdx i).countP (Phase.gives k) := by
  rw [advance_exec h hphase]
  rcases advance_handlers env { s with handlers := s.handlers.eraseIdx i } phase with
    heq | ⟨next, heq, -, hnext⟩
  · rw [heq]
  · have hfalse : next.gives k = false := by
      by_contra hgives
      obtain ⟨msg, sendtool, hstoring, hmsg, hanswered⟩ := hnext k (by simpa using hgives)
      exact hno msg sendtool hstoring hmsg hanswered
    rw [heq, List.countP_append, List.countP_singleton, hfalse]
    exact le_rfl

/-- The goods of an order are stored. -/
theorem Settled.goods (h : Settled p) {i : ℕ} {env : Env} {msg : Msg} {sendtool : Option Msg}
    {k : OrderNu} (hphase : p.1.handlers[i]? = some (.storing msg sendtool))
    (hmsg : msg.order_nu = some k) (hcareful : Undisturbed p (.advance i env))
    (hexec : exec p.1 (.advance i env) = some q.1)
    (hcredits : q.2 = if stores env.outcomes p.1.db msg then (k, .goods) :: p.2 else p.2) :
    Settled q := by
  obtain ⟨hhalf, halone⟩ := hcareful _ hphase k hmsg
  obtain ⟨hanswered, hmarks⟩ := @sqlShop_answered env.outcomes p.1.db _ _ hmsg
  -- the order is not done with yet: this handler has read it
  have hmem := List.mem_of_getElem? hphase
  have hopen : ¬ Done p.1 k := fun hdone => hdone.2 _ hmem hmsg
  have hfree : ∀ part, (k, part) ∉ p.2 := fun part hm => hopen (h.done _ hm)
  have hnone : p.1.handlers.countP (Phase.gives k) = 0 :=
    Nat.eq_zero_of_not_pos fun hpos => hopen (h.given k hpos)
  have hless : ∀ k, (p.1.handlers.eraseIdx i).countP (Phase.gives k) ≤
      p.1.handlers.countP (Phase.gives k) := fun k => (List.eraseIdx_sublist _ _).countP_le
  -- behind a success it is
  have hdone : Known env.outcomes p.1.db msg ∧ Completes env.outcomes msg → Done q.1 k := by
    intro hends
    rw [advance_exec hexec hphase]
    refine ⟨?_, fun phase hm hread => ?_⟩
    · rw [advance_storing_db]
      exact hmarks hends (h.reads _ hmem k hmsg)
    · obtain ⟨next, heq, hnext⟩ := advance_storing_handlers env
        { p.1 with handlers := p.1.handlers.eraseIdx i } msg sendtool
      rw [heq] at hm
      rcases List.mem_append.mp hm with hold | hnew
      · exact halone hends phase hold hread
      · obtain ⟨_, _, rfl⟩ := hnext phase (Option.mem_toList.mp hnew)
        cases hread
  have hother : ∀ k', k' ≠ k → q.1.handlers.countP (Phase.gives k') ≤
      p.1.handlers.countP (Phase.gives k') := by
    intro k' hne
    refine (countP_gives hexec hphase ?_).trans (hless k')
    rintro _ _ ⟨⟩ hmsg'
    exact absurd (Option.some.inj (hmsg'.symm.trans hmsg)) hne
  have hgranted : stores env.outcomes p.1.db msg = true → Done q.1 k := fun hstores =>
    have hgrants := stores_grants hstores
    hdone ⟨hgrants.1, hhalf hgrants⟩
  have hcount : ∀ k', q.2.count (k', .cards) = p.2.count (k', .cards) := by
    intro k'
    rw [hcredits]
    split_ifs
    · exact List.count_cons_of_ne (by simp)
    · rfl
  constructor
  · unfold Once
    rw [hcredits]
    split_ifs
    · exact List.nodup_cons.mpr ⟨hfree _, h.once⟩
    · exact h.once
  · intro x hx
    rw [hcredits] at hx
    split_ifs at hx with hstores
    · rcases List.mem_cons.mp hx with rfl | hold
      · exact hgranted hstores
      · exact (h.done x hold).step hexec
    · exact (h.done x hx).step hexec
  · intro k' hpos
    by_cases hk : k' = k
    · subst hk
      refine hdone (hanswered ?_)
      by_contra hnot
      have := countP_gives hexec hphase (k := k') (by rintro _ _ ⟨⟩ _; exact hnot)
      have := hless k'
      omega
    · exact (h.given k' (hpos.trans_le (hother k' hk))).step hexec
  · intro k'
    rw [hcount]
    by_cases hk : k' = k
    · subst hk
      rw [List.count_eq_zero.mpr (hfree _), Nat.add_zero, advance_exec hexec hphase]
      obtain ⟨next, heq, -⟩ := advance_storing_handlers env
        { p.1 with handlers := p.1.handlers.eraseIdx i } msg sendtool
      have hlast : next.toList.countP (Phase.gives k') ≤ 1 :=
        List.countP_le_length.trans (by cases next <;> simp)
      have := hless k'
      rw [heq, List.countP_append]
      show (p.1.handlers.eraseIdx i).countP _ + _ ≤ 1
      omega
    · exact (Nat.add_le_add_right (hother k' hk) _).trans (h.cards k')
  · exact h.reads_step hexec

/-- The free cards of an order are stored. -/
theorem Settled.gave (h : Settled p) {i : ℕ} {env : Env} {sendtool : Msg} {k : OrderNu}
    {succ : Bool} (hphase : p.1.handlers[i]? = some (.giving sendtool (some k) succ))
    (hcareful : Undisturbed p (.advance i env)) (hexec : exec p.1 (.advance i env) = some q.1)
    (hcredits : q.2 = if stores env.outcomes p.1.db sendtool then (k, .cards) :: p.2 else p.2) :
    Settled q := by
  have hcareful := hcareful _ hphase
  have hfewer : ∀ k, q.1.handlers.countP (Phase.gives k) ≤
      (p.1.handlers.eraseIdx i).countP (Phase.gives k) := fun k =>
    countP_gives hexec hphase (by rintro _ _ ⟨⟩)
  have hless : ∀ k, (p.1.handlers.eraseIdx i).countP (Phase.gives k) ≤
      p.1.handlers.countP (Phase.gives k) := fun k => (List.eraseIdx_sublist _ _).countP_le
  split_ifs at hcredits with hstores
  · -- this handler is the one that may have still to give them
    have hgives : (Phase.giving sendtool (some k) succ).gives k = true :=
      decide_eq_true ⟨hcareful (stores_grants hstores), rfl⟩
    have hone := countP_eraseIdx_add hphase (Phase.gives k)
    rw [if_pos hgives] at hone
    have hcards := h.cards k
    have hdone := h.given k (by omega)
    constructor
    · unfold Once
      rw [hcredits]
      exact List.nodup_cons.mpr ⟨List.count_eq_zero.mp (by omega), h.once⟩
    · rw [hcredits]
      intro x hx
      rcases List.mem_cons.mp hx with rfl | hold
      · exact hdone.step hexec
      · exact (h.done x hold).step hexec
    · intro k' hpos
      exact (h.given k' (hpos.trans_le ((hfewer k').trans (hless k')))).step hexec
    · intro k'
      have hq := hfewer k'
      have hp := h.cards k'
      rw [hcredits]
      by_cases hk : k' = k
      · subst hk
        rw [List.count_cons_self]
        omega
      · rw [List.count_cons_of_ne (by simpa using fun h => hk h.symm)]
        have := hless k'
        omega
    · exact h.reads_step hexec
  · exact h.quiet hexec hcredits fun k => (hfewer k).trans (hless k)

theorem Settled.step (h : Settled p) (hcareful : Undisturbed p e) (hstep : crediting.step p e q) :
    Settled q := by
  obtain ⟨hexec, hnote⟩ := hstep
  cases e with
  | advance i env =>
    obtain ⟨phase, hphase, -⟩ := Option.map_eq_some_iff.mp hexec
    have hnote : q.2 = ((p.1.handlers[i]?).bind (creditOf env.outcomes p.1.db)).toList ++ p.2 :=
      hnote
    rw [hphase, Option.bind_some] at hnote
    have hquiet : q.2 = p.2 → (∀ msg sendtool, phase = .storing msg sendtool → msg.order_nu = none) →
        Settled q := by
      intro hsame hno
      refine h.quiet hexec hsame fun k => ?_
      refine (countP_gives hexec hphase ?_).trans (List.eraseIdx_sublist _ _).countP_le
      intro msg sendtool hstoring hmsg
      rw [hno msg sendtool hstoring] at hmsg
      cases hmsg
    cases phase with
    | storing msg sendtool =>
      cases hmsg : msg.order_nu with
      | none =>
        refine hquiet ?_ (by rintro _ _ ⟨⟩; exact hmsg)
        rw [hnote, creditOf, hmsg]
        split_ifs <;> rfl
      | some k =>
        refine h.goods hphase hmsg hcareful hexec ?_
        rw [hnote, creditOf, hmsg]
        split_ifs <;> rfl
    | giving sendtool order_nu succ =>
      cases order_nu with
      | none =>
        refine hquiet ?_ (by rintro _ _ ⟨⟩)
        rw [hnote, creditOf]
        split_ifs <;> rfl
      | some k =>
        refine h.gave hphase hcareful hexec ?_
        rw [hnote, creditOf]
        split_ifs <;> rfl
    | _ => exact hquiet hnote (by rintro _ _ ⟨⟩)
  | notify k =>
    refine h.quiet hexec hnote fun k => ?_
    rw [← Option.some.inj hexec]
    simp [State.suspend, Phase.gives]
  | shop conf =>
    refine h.quiet hexec hnote fun k => ?_
    rw [← Option.some.inj hexec]
    simp [State.suspend, Phase.gives]
  | newOrder k order =>
    have hsame : q.1.handlers = p.1.handlers := by
      have hexec : exec p.1 (.newOrder k order) = some q.1 := hexec
      unfold exec at hexec
      by_cases hk : k ∈ p.1.db.recharge ∨ order.responsestatus = 3
      · simp [hk] at hexec
      · simp only [if_neg hk, Option.some.injEq] at hexec
        rw [← hexec]
    exact h.quiet hexec hnote fun k => by rw [hsame]
  | others gamecurrency tools =>
    have hsame : q.1.handlers = p.1.handlers := by
      rw [← Option.some.inj hexec]
    exact h.quiet hexec hnote fun k => by rw [hsame]

/-- **Orders.** In a run in which the goods of an order are stored undisturbed, and its free
cards behind a success, no order is credited its goods or its free cards twice: an order that
was credited is marked, and no notification that has read it is left. -/
theorem once_of_undisturbed {p : State × Credits}
    (hp : (crediting.restrict Undisturbed).Reachable p) : Once p := by
  have hsettled : Settled p := by
    induction hp with
    | @init p hinit =>
      obtain ⟨hhandlers, hcredits⟩ := hinit
      have hhandlers : p.1.handlers = [] := hhandlers
      have hcredits : p.2 = [] := hcredits
      refine ⟨?_, ?_, ?_, ?_, ?_⟩
      · unfold Once
        rw [hcredits]
        exact List.nodup_nil
      · rw [hcredits]
        exact fun _ hm => absurd hm List.not_mem_nil
      · intro k hk
        rw [hhandlers] at hk
        cases hk
      · intro k
        rw [hhandlers, hcredits]
        exact Nat.zero_le 1
      · rw [hhandlers]
        exact fun _ hm => absurd hm List.not_mem_nil
    | step _ hstep ih => exact ih.step hstep.1 hstep.2
  exact hsettled.once

/-! ## Two notifications of one order -/

/-- Player 7 has no money and no tools, and has paid for one card of 1000 coins. -/
def paidOrder : State where
  db := ⟨Table.empty.set 7 0, [], Table.empty.set "A1" ⟨7, 2, 1, 7, 1, 0⟩⟩
  goods := Table.empty.set 2 ⟨3, 0, 1000, 0, 0, 0⟩
  handlers := []

/-- Everything succeeds. -/
def Env.good : Env := ⟨true, true, .good 100⟩

/-- The suspended handlers go on, as numbered. -/
def goingOn (l : List ℕ) : List Event := l.map fun i => .advance i .good

/-- The goods of an order come with cards. -/
def paidWithCards : State where
  db := paidOrder.db
  goods := paidOrder.goods.set 6 ⟨6, 1, 0, 0, 0, 0⟩
  handlers := []

/-- The order is credited its coins and its free cards; another notification, which comes when
the coins are stored, is too late. -/
theorem once_of_undisturbed_two : ∃ p, p.2 = [("A1", .cards), ("A1", .goods)] ∧
    p.1.handlers = [] ∧ Once p := by
  obtain ⟨p, hp, hcredits⟩ := TSys.reachable_of_exec
    (TSys.restrictExec_step (C := Undisturbed) (T := crediting)
      (TSys.observeExec_step exec_step))
    (s := (paidWithCards, []))
    (l := [.notify "A1"] ++ goingOn [0, 0, 0, 0] ++ [.notify "A1"] ++ goingOn [0, 0])
    (p := fun p => decide (p.2 = [("A1", .cards), ("A1", .goods)] ∧ p.1.handlers = []))
    ⟨rfl, rfl⟩ (by decide +kernel)
  obtain ⟨hboth, hended⟩ := of_decide_eq_true hcredits
  exact ⟨p, hboth, hended, once_of_undisturbed hp⟩

/-- Both notifications read the order before either stores it. -/
theorem order_credited_twice : ∃ p, crediting.Reachable p ∧ ¬ Once p := by
  obtain ⟨p, hp, hcredits⟩ := TSys.reachable_of_exec
    (T := crediting) (TSys.observeExec_step exec_step)
    (s := (paidOrder, []))
    (l := [.notify "A1", .notify "A1"] ++ goingOn [0, 0, 0, 0, 0, 0, 0, 0])
    (p := fun p => p.2 == [("A1", .goods), ("A1", .goods)]) ⟨rfl, rfl⟩ (by decide +kernel)
  refine ⟨p, hp, ?_⟩
  unfold Once
  rw [beq_iff_eq.mp hcredits]
  decide

end Shop

end DnServer.Bullfight
