import DnServer.Lib.Transition
import DnServer.Bullfight.Agent.State

/-!
# The safe box

`DealSafeBoxCoin` moves coins between the wallet and the safe box. It never makes or
loses any. The bounds on both hold as long as an amount is not so far below zero that it
works as a movement the other way, which has checks of its own.
-/

namespace DnServer.Bullfight

open DnServer.Lib

namespace Agent

open types (SAFE_BOX_MAX_MONEY)

/-! ## The handler -/

/-- The round of `GetSelfVip` for one tool. -/
def State.vipOf (now : ℤ) (s : State) (v : Tool) : State :=
  if v.kind = 1 ∧ v.endtime > now ∧ s.vip < v.vip then { s with vip := v.vip, viptime := v.endtime }
  else s

/-- `GetSelfVip` at the time `now`. -/
def GetSelfVip (now : ℤ) (s : State) : State :=
  if s.viptime ≠ 0 ∧ s.viptime < now then
    s.tools.foldl (State.vipOf now) { s with vip := 0, viptime := 0 }
  else s

/-- Money moves into the box, or out of it where it is negative. -/
def State.putInBox (s : State) (money : ℚ) : State :=
  { s with safebox := s.safebox.map fun box =>
      { box with money := box.money + money, upmoney := box.upmoney + money } }

/-- The two tests of a deposit, the second after the first. -/
def depositPart (fits : ℚ → ℚ → Bool) (amount : ℚ → ℚ → ℚ) (p : ℚ × Bool) :
    Handler (ℚ × Bool) := do
  let s ← Co.read
  let box ← Co.need s.safebox
  if s.seatid.isNone ∧ s.money ≥ p.1 then
    let max ← Co.need (SAFE_BOX_MAX_MONEY s.vip)
    if fits (box.money + p.1) max then
      let money := amount p.1 (max - box.money)
      LoseMoney money .safe_box
      Co.write fun s => s.putInBox money
      pure (-money, true)
    else pure p
  else pure p

/-- The part of `DealSafeBoxCoin` that moves coins: `t` is 0 for a withdrawal and 1 for a
deposit. -/
def moveCoins (box : SafeBox) (t money : ℤ) : Handler Bool := do
  if t = 0 ∧ money ≤ box.money then
    AddMoney money .safe_box
    Co.write fun s => s.putInBox (-money)
    pure true
  else if t = 1 then
    let p ← depositPart (fun sum max => sum < max) (fun money _ => money) (money, false)
    let q ← depositPart (fun sum max => sum ≥ max) (fun _ room => room) p
    pure q.2
  else pure false

def DealSafeBoxCoin (now : ℤ) (t money : ℤ) : Handler Unit := do
  Co.write (GetSelfVip now)
  let s ← Co.read
  match s.safebox with
  | none => pure ()
  | some box =>
    if box.login then
      let succ ← moveCoins box t money
      if succ then UpdateSafeBoxToDB

/-! ## What a request does -/

structure BoxRequest where
  now : ℤ
  type : ℤ
  money : ℤ

/-- One request after another. -/
def boxing : TSys State BoxRequest where
  init _ := True
  step s r t := ((DealSafeBoxCoin r.now r.type r.money).advance s).2 = t

/-- What the box gains. -/
def movement (u : State) (t money : ℤ) (box : SafeBox) (max : ℚ) : ℚ :=
  if box.login then
    if t = 0 ∧ money ≤ box.money then -money
    else if t = 1 ∧ u.seatid.isNone ∧ money ≤ u.money then
      if max ≤ box.money ∨ max ≤ box.money + money then max - box.money else money
    else 0
  else 0

/-- The wallet, the box and the VIP level after `x` has moved into the box. -/
structure Moved (u t : State) (x : ℚ) : Prop where
  money : t.money = u.money - x
  safebox : t.safebox.map SafeBox.money = u.safebox.map fun box => box.money + x
  vip : t.vip = u.vip

@[simp] theorem restRedpacket_safebox (s : State) : s.restRedpacket.safebox = s.safebox := by
  unfold State.restRedpacket
  split <;> rfl

@[simp] theorem restRedpacket_vip (s : State) : s.restRedpacket.vip = s.vip := by
  unfold State.restRedpacket
  split <;> rfl

theorem advance_LoseMoney (s : State) {x : ℚ} (h : x ≤ s.money) :
    (LoseMoney x .safe_box).advance s =
      (.done (), State.restRedpacket { s with money := s.money - x, upmoney := s.upmoney - x }) := by
  have hnot : ¬x > s.money := not_lt.mpr h
  show Co.advance (if x > s.money then _ else _) s = _
  rw [if_neg hnot]
  rfl

theorem advance_AddMoney (s : State) (x : ℚ) :
    (AddMoney x .safe_box).advance s =
      (.done (), State.restRedpacket { s with money := s.money + x, upmoney := s.upmoney + x }) := rfl

/-- Nothing has moved. -/
theorem Moved.rest (u : State) : Moved u u 0 := by
  constructor
  · exact (sub_zero u.money).symm
  · simp only [add_zero]
  · rfl

theorem Moved.trans {u t w : State} {x y : ℚ} (h : Moved u t x) (h' : Moved t w y) :
    Moved u w (x + y) := by
  constructor
  · rw [h'.money, h.money]
    ring
  · have hbox := h.safebox
    rw [h'.safebox]
    cases hu : u.safebox with
    | none =>
      rw [hu] at hbox
      rw [Option.map_eq_none_iff.mp hbox]
      rfl
    | some box =>
      rw [hu] at hbox
      obtain ⟨box', hbox', heq⟩ := Option.map_eq_some_iff.mp hbox
      rw [hbox']
      show some (box'.money + y) = some (box.money + (x + y))
      rw [heq, add_assoc]
  · rw [h'.vip, h.vip]

/-- Coins leave the wallet, then enter the box. -/
theorem moved_paid (s : State) (x : ℚ) :
    Moved s ((State.restRedpacket { s with money := s.money - x, upmoney := s.upmoney - x }).putInBox
      x) x := by
  constructor
  · exact restRedpacket_money _
  · simp [State.putInBox, Function.comp_def]
  · exact restRedpacket_vip _

/-- One test of a deposit. -/
inductive DepositCase (fits : ℚ → ℚ → Bool) (amount : ℚ → ℚ → ℚ) (s : State) (box : SafeBox)
    (p : ℚ × Bool) : Co.Stop State Message Request Request.answer (ℚ × Bool) × State → Prop
  | barred : ¬(s.seatid.isNone ∧ s.money ≥ p.1) → DepositCase fits amount s box p (.done p, s)
  | noLevel : SAFE_BOX_MAX_MONEY s.vip = none → DepositCase fits amount s box p (.raised, s)
  | no {max} : s.seatid.isNone ∧ s.money ≥ p.1 → SAFE_BOX_MAX_MONEY s.vip = some max →
      fits (box.money + p.1) max = false → DepositCase fits amount s box p (.done p, s)
  | yes {max t} : s.seatid.isNone ∧ s.money ≥ p.1 → SAFE_BOX_MAX_MONEY s.vip = some max →
      fits (box.money + p.1) max = true → Moved s t (amount p.1 (max - box.money)) →
      t.seatid = s.seatid →
      DepositCase fits amount s box p (.done (-amount p.1 (max - box.money), true), t)

@[simp] theorem restRedpacket_seatid (s : State) : s.restRedpacket.seatid = s.seatid := by
  unfold State.restRedpacket
  split <;> rfl

/-- A deposit the wallet can pay. -/
theorem depositPart_case (fits : ℚ → ℚ → Bool) (amount : ℚ → ℚ → ℚ) {s : State} {box : SafeBox}
    (hbox : s.safebox = some box) (p : ℚ × Bool)
    (hpay : ∀ max, s.money ≥ p.1 → fits (box.money + p.1) max = true →
      amount p.1 (max - box.money) ≤ s.money) :
    DepositCase fits amount s box p ((depositPart fits amount p).advance s) := by
  unfold depositPart
  rw [Co.advance_read_bind, hbox, Co.advance_need_some_bind]
  by_cases hopen : s.seatid.isNone ∧ s.money ≥ p.1
  · rw [if_pos hopen]
    cases hmax : SAFE_BOX_MAX_MONEY s.vip with
    | none =>
      rw [Co.advance_need_none_bind]
      exact .noLevel hmax
    | some max =>
      rw [Co.advance_need_some_bind]
      cases hfits : fits (box.money + p.1) max with
      | false => exact .no hopen hmax hfits
      | true =>
        rw [if_pos rfl, Co.advance_bind_of_done (advance_LoseMoney s (hpay max hopen.2 hfits)),
          Co.advance_write_bind]
        exact .yes hopen hmax hfits (moved_paid s _) (restRedpacket_seatid _)
  · rw [if_neg hopen]
    exact .barred hopen

/-! ### The whole request -/

theorem vipOf_foldl (now : ℤ) (tools : List Tool) (s : State) :
    (tools.foldl (State.vipOf now) s).money = s.money ∧
      (tools.foldl (State.vipOf now) s).safebox = s.safebox := by
  induction tools generalizing s with
  | nil => exact ⟨rfl, rfl⟩
  | cons v rest ih =>
    have hone : (s.vipOf now v).money = s.money ∧ (s.vipOf now v).safebox = s.safebox := by
      unfold State.vipOf
      split <;> exact ⟨rfl, rfl⟩
    obtain ⟨hmoney, hbox⟩ := ih (s.vipOf now v)
    exact ⟨hmoney.trans hone.1, hbox.trans hone.2⟩

theorem getSelfVip_purse (now : ℤ) (s : State) :
    (GetSelfVip now s).money = s.money ∧ (GetSelfVip now s).safebox = s.safebox := by
  unfold GetSelfVip
  split
  · exact vipOf_foldl now s.tools _
  · exact ⟨rfl, rfl⟩

/-- Writing the box back moves nothing. -/
theorem updateSafeBox_moved (u : State) : Moved u (UpdateSafeBoxToDB.advance u).2 0 := by
  unfold UpdateSafeBoxToDB
  rw [Co.advance_read_bind]
  cases hbox : u.safebox with
  | none => exact Moved.rest u
  | some box =>
    constructor
    · exact (sub_zero u.money).symm
    · simp [Co.advance_tell_bind, hbox]
    · rfl

theorem Moved.box {s t : State} {x : ℚ} (h : Moved s t x) {box : SafeBox}
    (hbox : s.safebox = some box) :
    ∃ box', t.safebox = some box' ∧ box'.money = box.money + x := by
  have hmoved := h.safebox
  rw [hbox] at hmoved
  exact Option.map_eq_some_iff.mp hmoved

/-- How the coins move where the wallet is not in debt. -/
inductive CoinCase (s : State) (box : SafeBox) (t money : ℤ) :
    Co.Stop State Message Request Request.answer Bool × State → Prop
  | noLevel : SAFE_BOX_MAX_MONEY s.vip = none → CoinCase s box t money (.raised, s)
  | done {b u x} : Moved s u x →
      (∀ max, SAFE_BOX_MAX_MONEY s.vip = some max → box.login = true →
        x = movement s t money box max) → CoinCase s box t money (.done b, u)

/-- The first test of a deposit refuses an amount that fills the box; then the second
takes what there is room for. The second runs after a granted first one too: with an
amount below zero and a full box it takes back what the first has done. -/
theorem deposit_case {s : State} {box : SafeBox} (hmoney : 0 ≤ s.money)
    (hbox : s.safebox = some box) (money : ℤ) :
    CoinCase s box 1 money ((moveCoins box 1 money).advance s) := by
  have hone : ¬((1 : ℤ) = 0 ∧ (money : ℚ) ≤ box.money) := by simp
  unfold moveCoins
  rw [if_neg hone, if_pos rfl]
  have hmovement : ∀ max, box.login = true → movement s 1 money box max =
      if s.seatid.isNone ∧ money ≤ s.money then
        if max ≤ box.money ∨ max ≤ box.money + money then max - box.money else money
      else 0 := by
    intro max hlogin
    unfold movement
    rw [if_pos hlogin, if_neg hone]
    simp
  -- the two parts of the handler: into the box as far as it goes, and what is too much back
  have hfirst := depositPart_case (fun sum max => sum < max) (fun money _ => money) hbox
    ((money : ℚ), false) (fun _ h _ => h)
  have hsecond := depositPart_case (fun sum max => sum ≥ max) (fun _ room => room) hbox
    ((money : ℚ), false) (by
      intro max hpay hfits
      have hfits : box.money + money ≥ max := of_decide_eq_true hfits
      linarith)
  generalize hr : (depositPart (fun sum max => sum < max) (fun money _ => money)
    ((money : ℚ), false)).advance s = r at hfirst
  cases hfirst with
  | barred hbarred =>
    rw [Co.advance_bind_of_done hr]
    generalize hr' : (depositPart (fun sum max => sum ≥ max) (fun _ room => room)
      ((money : ℚ), false)).advance s = r' at hsecond
    cases hsecond with
    | barred =>
      rw [Co.advance_bind_of_done hr']
      refine .done (Moved.rest s) ?_
      intro max hmax hlogin
      rw [hmovement max hlogin, if_neg hbarred]
    | noLevel hlevel =>
      rw [Co.advance_bind_of_raised hr']
      exact .noLevel hlevel
    | no hopen => exact absurd hopen hbarred
    | yes hopen => exact absurd hopen hbarred
  | noLevel hlevel =>
    rw [Co.advance_bind_of_raised hr]
    exact .noLevel hlevel
  | @no max hopen hmax hfits =>
    rw [Co.advance_bind_of_done hr]
    have hfull : max ≤ box.money + money := not_lt.mp (of_decide_eq_false hfits)
    generalize hr' : (depositPart (fun sum max => sum ≥ max) (fun _ room => room)
      ((money : ℚ), false)).advance s = r' at hsecond
    cases hsecond with
    | barred hbarred => exact absurd hopen hbarred
    | noLevel hlevel =>
      rw [hmax] at hlevel
      cases hlevel
    | no _ hmax' hnot =>
      rw [hmax] at hmax'
      obtain rfl := Option.some.inj hmax'
      exact absurd hfull (of_decide_eq_false hnot)
    | yes _ hmax' _ hmoved =>
      rw [hmax] at hmax'
      obtain rfl := Option.some.inj hmax'
      rw [Co.advance_bind_of_done hr']
      refine .done hmoved ?_
      intro max' hmax' hlogin
      rw [hmax] at hmax'
      obtain rfl := Option.some.inj hmax'
      rw [hmovement max hlogin, if_pos hopen, if_pos (.inr hfull)]
  | @yes max u hopen hmax hfits hmoved hseat =>
    rw [Co.advance_bind_of_done hr]
    have hroom : box.money + money < max := of_decide_eq_true hfits
    obtain ⟨box', hbox', hsum⟩ := hmoved.box hbox
    have hwallet : u.money = s.money - money := hmoved.money
    have hagain := depositPart_case (fun sum max => sum ≥ max) (fun _ room => room) hbox'
      (-(money : ℚ), true) (by
        intro max' _ hfull
        have hfull : box'.money + -money ≥ max' := of_decide_eq_true hfull
        show max' - box'.money ≤ u.money
        rw [hwallet]
        linarith)
    have hopen' : u.seatid.isNone ∧ u.money ≥ -(money : ℚ) := by
      refine ⟨by rw [hseat]; exact hopen.1, ?_⟩
      rw [hwallet]
      linarith
    generalize hr' : (depositPart (fun sum max => sum ≥ max) (fun _ room => room)
      (-(money : ℚ), true)).advance u = r' at hagain
    cases hagain with
    | barred hbarred => exact absurd hopen' hbarred
    | noLevel hlevel =>
      rw [hmoved.vip, hmax] at hlevel
      cases hlevel
    | no _ hmax' hnot =>
      rw [hmoved.vip, hmax] at hmax'
      obtain rfl := Option.some.inj hmax'
      have hnot : ¬box'.money + -money ≥ max := of_decide_eq_false hnot
      rw [Co.advance_bind_of_done hr']
      refine .done hmoved ?_
      intro max' hmax' hlogin
      rw [hmax] at hmax'
      obtain rfl := Option.some.inj hmax'
      rw [hmovement max hlogin, if_pos hopen, if_neg]
      rintro (hfull | hfull)
      · apply hnot
        rw [hsum]
        linarith
      · linarith
    | yes _ hmax' hfull hback =>
      rw [hmoved.vip, hmax] at hmax'
      obtain rfl := Option.some.inj hmax'
      have hfull : box'.money + -money ≥ max := of_decide_eq_true hfull
      rw [Co.advance_bind_of_done hr']
      refine .done (hmoved.trans hback) ?_
      intro max' hmax' hlogin
      rw [hmax] at hmax'
      obtain rfl := Option.some.inj hmax'
      rw [hmovement max hlogin, if_pos hopen, if_pos]
      · rw [hsum]
        ring
      · left
        linarith

theorem coin_case {s : State} {box : SafeBox} (hmoney : 0 ≤ s.money)
    (hbox : s.safebox = some box) (t money : ℤ) :
    CoinCase s box t money ((moveCoins box t money).advance s) := by
  by_cases hout : t = 0 ∧ (money : ℚ) ≤ box.money
  · -- a withdrawal: what the box gains is `-money`
    have hmoved : Moved s ((State.restRedpacket
        { s with money := s.money + money, upmoney := s.upmoney + money }).putInBox (-money))
        (-money) := by
      have hpaid := moved_paid s (-(money : ℚ))
      rw [sub_neg_eq_add, sub_neg_eq_add] at hpaid
      exact hpaid
    have hadvance : (moveCoins box t money).advance s = (.done true, (State.restRedpacket
        { s with money := s.money + money, upmoney := s.upmoney + money }).putInBox (-money)) := by
      unfold moveCoins
      rw [if_pos hout, Co.advance_bind_of_done (advance_AddMoney s money)]
      rfl
    rw [hadvance]
    refine .done hmoved ?_
    intro max _ hlogin
    unfold movement
    rw [if_pos hlogin, if_pos hout]
  · by_cases hin : t = 1
    · subst hin
      exact deposit_case hmoney hbox money
    · have hadvance : (moveCoins box t money).advance s = (.done false, s) := by
        unfold moveCoins
        rw [if_neg hout, if_neg hin]
        rfl
      rw [hadvance]
      refine .done (Moved.rest s) ?_
      intro max _ hlogin
      unfold movement
      rw [if_pos hlogin, if_neg hout, if_neg (fun h => hin h.1)]

/-- A wallet that is not in debt pays and receives what `movement` says. -/
theorem deal_moved (now t money : ℤ) (s : State) (hmoney : 0 ≤ s.money) :
    ∃ x, Moved (GetSelfVip now s) ((DealSafeBoxCoin now t money).advance s).2 x ∧
      (s.safebox = none → x = 0) ∧
      ∀ box max, s.safebox = some box → SAFE_BOX_MAX_MONEY (GetSelfVip now s).vip = some max →
        x = movement (GetSelfVip now s) t money box max := by
  obtain ⟨hwallet, hsame⟩ := getSelfVip_purse now s
  unfold DealSafeBoxCoin
  rw [Co.advance_write_bind, Co.advance_read_bind]
  rw [← hwallet] at hmoney
  rw [← hsame]
  generalize GetSelfVip now s = u at hmoney ⊢
  cases hbox : u.safebox with
  | none =>
    refine ⟨0, Moved.rest u, fun _ => rfl, ?_⟩
    intro box max hnone
    cases hnone
  | some box =>
    simp only []
    by_cases hlogin : box.login = true
    · rw [if_pos hlogin]
      have hcase := coin_case hmoney hbox t money
      generalize hr : (moveCoins box t money).advance u = r at hcase
      cases hcase with
      | noLevel hlevel =>
        rw [Co.advance_bind_of_raised hr]
        refine ⟨0, Moved.rest u, fun _ => rfl, ?_⟩
        intro box' max _ hmax
        rw [hlevel] at hmax
        cases hmax
      | @done b w x hmoved hmovement =>
        rw [Co.advance_bind_of_done hr]
        refine ⟨x, ?_, nofun, ?_⟩
        · cases b with
          | false => exact hmoved
          | true =>
            have hboth := hmoved.trans (updateSafeBox_moved w)
            rw [add_zero] at hboth
            exact hboth
        · rintro box' max ⟨⟩ hmax
          exact hmovement max hmax hlogin
    · rw [if_neg hlogin]
      refine ⟨0, Moved.rest u, fun _ => rfl, ?_⟩
      rintro box' max ⟨⟩ _
      unfold movement
      rw [if_neg hlogin]

/-! ## The bounds -/

/-- Wallet and box together. -/
def State.coins (s : State) : ℚ := s.money + (s.safebox.map SafeBox.money).getD 0

/-- The wallet is not in debt, and the box holds what the VIP level allows. -/
def Bounded (s : State) : Prop :=
  0 ≤ s.money ∧ ∀ held ∈ s.safebox.map SafeBox.money,
    0 ≤ held ∧ ∃ max, SAFE_BOX_MAX_MONEY s.vip = some max ∧ held ≤ max

/-- The amount is not so far below zero that it empties the wallet, overfills the box or
empties it; and a request that moves nothing finds a level that allows the box. -/
def Fits (s : State) (r : BoxRequest) : Prop :=
  ∀ box ∈ s.safebox, ∃ max, SAFE_BOX_MAX_MONEY (GetSelfVip r.now s).vip = some max ∧
    if box.login ∧ r.type = 0 ∧ r.money ≤ box.money then
      -s.money ≤ r.money ∧ box.money - max ≤ r.money
    else if box.login ∧ r.type = 1 ∧ (GetSelfVip r.now s).seatid.isNone ∧ r.money ≤ s.money then
      box.money < max → -box.money ≤ r.money
    else box.money ≤ max

theorem Moved.coins {u t : State} {x : ℚ} (h : Moved u t x) (hnone : u.safebox = none → x = 0) :
    t.coins = u.coins := by
  unfold State.coins
  rw [h.money, h.safebox]
  cases hbox : u.safebox with
  | none =>
    rw [hnone hbox, sub_zero]
    rfl
  | some box =>
    show u.money - x + (box.money + x) = u.money + box.money
    ring

theorem max_nonneg {vip : ℕ} {max : ℚ} (h : SAFE_BOX_MAX_MONEY vip = some max) : 0 ≤ max := by
  unfold SAFE_BOX_MAX_MONEY at h
  split at h
  all_goals cases h
  all_goals norm_num

/-- The three kinds of a request, by what it moves. -/
theorem movement_fits {u : State} {box : SafeBox} {max : ℚ} (hmoney : 0 ≤ u.money)
    (hbox : 0 ≤ box.money) (hmax : 0 ≤ max) (t money : ℤ) :
    (0 ≤ u.money - movement u t money box max ∧ 0 ≤ box.money + movement u t money box max ∧
        box.money + movement u t money box max ≤ max) ↔
      if box.login ∧ t = 0 ∧ money ≤ box.money then
        -u.money ≤ money ∧ box.money - max ≤ money
      else if box.login ∧ t = 1 ∧ u.seatid.isNone ∧ money ≤ u.money then
        box.money < max → -box.money ≤ money
      else box.money ≤ max := by
  by_cases hout : box.login ∧ t = 0 ∧ money ≤ box.money
  · have hmovement : movement u t money box max = -money := by
      unfold movement
      rw [if_pos hout.1, if_pos hout.2]
    rw [if_pos hout, hmovement]
    constructor
    · rintro ⟨hwallet, -, hover⟩
      constructor <;> linarith
    · rintro ⟨hwallet, hover⟩
      refine ⟨?_, ?_, ?_⟩ <;> linarith
  · rw [if_neg hout]
    by_cases hin : box.login ∧ t = 1 ∧ u.seatid.isNone ∧ money ≤ u.money
    · have hmovement : movement u t money box max =
          if max ≤ box.money ∨ max ≤ box.money + money then max - box.money else money := by
        unfold movement
        rw [if_pos hin.1, if_neg (fun h => hout ⟨hin.1, h⟩), if_pos hin.2]
      rw [if_pos hin, hmovement]
      by_cases hfull : max ≤ box.money ∨ max ≤ box.money + money
      · rw [if_pos hfull]
        constructor
        · rintro - hroom
          rcases hfull with hfull | hfull
          · linarith
          · linarith
        · intro _
          refine ⟨?_, ?_, ?_⟩
          · rcases hfull with hfull | hfull <;> linarith
          · linarith
          · linarith
      · rw [if_neg hfull]
        obtain ⟨hroom, hsum⟩ := not_or.mp hfull
        constructor
        · rintro ⟨-, hpos, -⟩ -
          linarith
        · intro h
          have hpos := h (not_le.mp hroom)
          refine ⟨?_, ?_, ?_⟩ <;> linarith
    · have hmovement : movement u t money box max = 0 := by
        unfold movement
        by_cases hlogin : box.login = true
        · rw [if_pos hlogin, if_neg (fun h => hout ⟨hlogin, h⟩), if_neg (fun h => hin ⟨hlogin, h⟩)]
        · rw [if_neg hlogin]
      rw [if_neg hin, hmovement, sub_zero, add_zero]
      exact ⟨fun h => h.2.2, fun h => ⟨hmoney, hbox, h⟩⟩

/-- A request from a bounded state keeps the bounds if and only if it fits. -/
theorem fits_iff {s t : State} {r : BoxRequest} (h : Bounded s) (hstep : boxing.step s r t) :
    Bounded t ↔ Fits s r := by
  obtain rfl := hstep
  obtain ⟨hmoney, hheld⟩ := h
  obtain ⟨x, hmoved, hnone, hx⟩ := deal_moved r.now r.type r.money s hmoney
  obtain ⟨hwallet, hsame⟩ := getSelfVip_purse r.now s
  unfold Bounded Fits
  rw [hmoved.money, hmoved.safebox, hmoved.vip, hsame]
  cases hs : s.safebox with
  | none =>
    rw [hnone hs, sub_zero, hwallet]
    simp [hmoney]
  | some box =>
    obtain ⟨hpos, -⟩ := hheld box.money (by rw [hs]; rfl)
    cases hmax : SAFE_BOX_MAX_MONEY (GetSelfVip r.now s).vip with
    | none => simp
    | some max =>
      simp only [Option.map_some, Option.mem_def, Option.some.injEq, forall_eq', exists_eq_left']
      rw [hx box max hs hmax, ← hwallet]
      exact movement_fits (hwallet ▸ hmoney) hpos (max_nonneg hmax) r.type r.money

/-- A request never makes or loses coins. -/
theorem coins_kept {s t : State} {r : BoxRequest} (h : Bounded s) (hstep : boxing.step s r t) :
    t.coins = s.coins := by
  obtain rfl := hstep
  obtain ⟨x, hmoved, hnone, -⟩ := deal_moved r.now r.type r.money s h.1
  obtain ⟨hwallet, hsame⟩ := getSelfVip_purse r.now s
  rw [hmoved.coins (hsame ▸ hnone)]
  unfold State.coins
  rw [hwallet, hsame]

/-! ## A whole run -/

/-- From a bounded state, requests that fit keep the bounds and the sum; and the next
request keeps both if and only if it fits too. -/
theorem bounded_iff_fits (s t : State) (rs : List BoxRequest) (h : Bounded s)
    (hrun : (boxing.restrict Fits).Run s rs t) :
    Bounded t ∧ t.coins = s.coins ∧
      ∀ r u, boxing.step t r u → (Bounded u ∧ u.coins = t.coins ↔ Fits t r) := by
  have hkept : Bounded t ∧ t.coins = s.coins := by
    refine hrun.preserves (P := fun u => Bounded u ∧ u.coins = s.coins) ?_ (.init trivial) ⟨h, rfl⟩
    rintro u r w - ⟨hbounded, hcoins⟩ ⟨hfits, hstep⟩
    exact ⟨(fits_iff hbounded hstep).mpr hfits, (coins_kept hbounded hstep).trans hcoins⟩
  refine ⟨hkept.1, hkept.2, ?_⟩
  intro r u hstep
  rw [← fits_iff hkept.1 hstep]
  exact ⟨fun hu => hu.1, fun hu => ⟨hu, coins_kept hkept.1 hstep⟩⟩

/-! ## Examples -/

/-- A player of VIP level 1 who has opened the safe box. -/
def boxOwner : State :=
  { State.start 20 1 with
    uid := some 7, login := true, money := 100, safebox := some ⟨50, 0, true⟩, vip := 1 }

theorem boxOwner_bounded : Bounded boxOwner := by
  refine ⟨by decide +kernel, ?_⟩
  rintro held ⟨⟩
  exact ⟨by decide +kernel, 1000000, rfl, by decide +kernel⟩

/-- The owner pays 30 coins in. -/
theorem bounded_iff_fits_deposit :
    Bounded ((DealSafeBoxCoin 0 1 30).advance boxOwner).2 ∧
      ((DealSafeBoxCoin 0 1 30).advance boxOwner).2.coins = 150 := by
  have hfits : Fits boxOwner ⟨0, 1, 30⟩ := by
    rintro box ⟨⟩
    exact ⟨1000000, rfl, by decide +kernel⟩
  have hrun := bounded_iff_fits boxOwner ((DealSafeBoxCoin 0 1 30).advance boxOwner).2 [⟨0, 1, 30⟩]
    boxOwner_bounded (.cons ⟨hfits, rfl⟩ (.nil _))
  exact ⟨hrun.1, hrun.2.1.trans (by decide +kernel)⟩

/-- A withdrawal of -200 coins. -/
theorem negative_withdrawal :
    ∃ s r t, Bounded s ∧ boxing.step s r t ∧ ¬Bounded t := by
  refine ⟨boxOwner, ⟨0, 0, -200⟩, _, boxOwner_bounded, rfl, ?_⟩
  intro h
  exact absurd h.1 (by decide +kernel)

end Agent

end DnServer.Bullfight
