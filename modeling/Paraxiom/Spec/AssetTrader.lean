import Paraxiom.ForStd.Transactional
import Paraxiom.Primitives.AssetTrader

/-!
# A trader's accounts

A trader sells weight once. What it charges for it is, to the last unit, what it refunds while
the message is executed and what is left for the revenue in the end, however often weight is
taken back, however much, and whatever the prices are by then; and at least the minimum balance
is left.

## Key results

- `splitRefund_add`, `refundWeight_spec`: a refund takes from what is outstanding
- `payment_accounted`: the accounts of a whole execution
-/

namespace Paraxiom.AssetTrader

open Transactional

variable {cfg : Config}

/-- What is documented of the parameters of a trader. -/
structure Config.Documented (cfg : Config) : Prop where
  /-- `checked_sub` takes the asset from the assets, and nothing else. -/
  checkedSub : ∀ payment id n unused, cfg.checkedSub payment ⟨id, .fungible n⟩ = some unused →
    cfg.amount payment id = cfg.amount unused id + n.toNat ∧
      ∀ id', id' ≠ id → cfg.amount payment id' = cfg.amount unused id'
  /-- A matcher finds the amount of a fungible asset. -/
  matched_amount : ∀ id n l balance,
    cfg.matchesFungibles ⟨id, .fungible n⟩ = some (l, balance) → balance = n.toNat
  /-- It finds the local asset by the id. -/
  matched_id : ∀ id fungibility fungibility' l l' balance balance',
    cfg.matchesFungibles ⟨id, fungibility⟩ = some (l, balance) →
      cfg.matchesFungibles ⟨id, fungibility'⟩ = some (l', balance') → l = l'

/-! ## Buying -/

/-- A conversion that succeeds keeps the number. -/
theorem tryIntoU128_eq_some {n : Nat} {u : U128} (h : tryIntoU128 n = some u) : u.toNat = n := by
  unfold tryIntoU128 at h
  split at h
  · rename_i hlt
    obtain rfl := Option.some.inj h
    rw [BitVec.toNat_ofNat, Nat.mod_eq_of_lt hlt]
  · cases h

/-- A number that fits is not cut. -/
theorem toNat_saturatedIntoU128 {n : Nat} (h : n < 2 ^ 128) : (saturatedIntoU128 n).toNat = n := by
  unfold saturatedIntoU128
  rw [BitVec.toNat_ofNat, Nat.min_eq_left (Nat.le_sub_one_of_lt h), Nat.mod_eq_of_lt h]

/-- At least the minimum balance of its asset is outstanding. -/
def Covered (asset : MultiAsset cfg.AssetId) (n : U128) : Prop :=
  ∀ l balance, cfg.matchesFungibles asset = some (l, balance) → cfg.minimumBalance l ≤ n.toNat

/-- A sale that is made. -/
theorem buyWeight_eq_ok (hcfg : cfg.Documented) {charge : Charge cfg} {weight : Weight}
    {payment unused : cfg.Assets} {s s' : Trader cfg}
    (h : buyWeight charge weight payment s = .ok (unused, s')) :
    s = none ∧ ∃ id n, s' = some ⟨weight, ⟨id, .fungible n⟩⟩ ∧
      cfg.checkedSub payment ⟨id, .fungible n⟩ = some unused ∧
      Covered (⟨id, .fungible n⟩ : MultiAsset cfg.AssetId) n := by
  obtain ⟨_, hnone, h⟩ := Exec.bind_eq_ok.mp h
  obtain ⟨first, _, h⟩ := Exec.bind_eq_ok.mp h
  obtain ⟨⟨l, balance⟩, hmatch, h⟩ := Exec.bind_eq_ok.mp h
  obtain ⟨amount, _, h⟩ := Exec.bind_eq_ok.mp h
  obtain ⟨n, hn, h⟩ := Exec.bind_eq_ok.mp h
  obtain ⟨_, hsub, h⟩ := Exec.bind_eq_ok.mp h
  obtain ⟨rfl, rfl⟩ := Prod.mk.inj (Exec.pure_eq_ok.mp h)
  refine ⟨Option.isNone_iff_eq_none.mp (ensure_eq_ok.mp hnone), first.id, n, rfl,
    okOr_eq_ok.mp hsub, fun l' balance' hmatch' => ?_⟩
  -- what is taken is of the asset that was matched, and is raised to its minimum balance
  obtain rfl := hcfg.matched_id first.id _ _ _ _ _ _ (okOr_eq_ok.mp hmatch) hmatch'
  rw [tryIntoU128_eq_some (okOr_eq_ok.mp hn)]
  split <;> omega

/-! ## Refunding -/

/-- The parts of a refund make up what was outstanding, and the minimum is left. -/
theorem splitRefund_add {outstanding minimum : Nat} (assetBalance : Nat)
    (h : minimum ≤ outstanding) :
    (splitRefund outstanding assetBalance minimum).1 +
        (splitRefund outstanding assetBalance minimum).2 = outstanding ∧
      minimum ≤ (splitRefund outstanding assetBalance minimum).2 := by
  unfold splitRefund
  split <;> dsimp only <;> omega

/-- The amount of a fungible asset. -/
def amountOf (asset : MultiAsset cfg.AssetId) : Nat :=
  match asset.fungibility with
  | .fungible n => n.toNat
  | .nonFungible _ => 0

/-- Of an asset that is outstanding a refund takes a part. -/
theorem refundWeight_spec (hcfg : cfg.Documented) (charge : Charge cfg) (weight : Weight)
    {w : Weight} {id : cfg.AssetId} {n : U128}
    (hcovered : Covered (⟨id, .fungible n⟩ : MultiAsset cfg.AssetId) n) :
    ∃ refund w' n', refundWeight charge weight (some ⟨w, ⟨id, .fungible n⟩⟩) =
        (refund, some ⟨w', ⟨id, .fungible n'⟩⟩) ∧
      (∀ asset ∈ refund, asset.id = id ∧ 0 < amountOf asset) ∧
      (refund.toList.map amountOf).sum + n'.toNat = n.toNat ∧
      Covered (⟨id, .fungible n'⟩ : MultiAsset cfg.AssetId) n' := by
  unfold refundWeight
  dsimp only
  cases hmatch : cfg.matchesFungibles ⟨id, .fungible n⟩ with
  -- without a match or a price nothing is refunded, and the trader stays as it is
  | none => exact ⟨none, w, n, rfl, nofun, Nat.zero_add _, hcovered⟩
  | some matched =>
    obtain ⟨l, balance⟩ := matched
    dsimp only
    cases charge l weight with
    | error e => exact ⟨none, w, n, rfl, nofun, Nat.zero_add _, hcovered⟩
    | ok assetBalance =>
      dsimp only
      obtain rfl := hcfg.matched_amount _ _ _ _ hmatch
      obtain ⟨hadd, hmin⟩ := splitRefund_add assetBalance (hcovered l _ hmatch)
      generalize splitRefund n.toNat assetBalance (cfg.minimumBalance l) = parts at hadd hmin
      obtain ⟨refunded, left⟩ := parts
      dsimp only at hadd hmin ⊢
      -- both parts are below what was a `u128`, so neither conversion cuts anything
      have hn := n.isLt
      have hrefunded : (saturatedIntoU128 refunded).toNat = refunded :=
        toNat_saturatedIntoU128 (by omega)
      have hleft : (saturatedIntoU128 left).toNat = left := toNat_saturatedIntoU128 (by omega)
      refine ⟨_, _, _, rfl, ?_, ?_, ?_⟩
      · intro asset hasset
        split at hasset
        · rename_i hpos
          obtain rfl := Option.some.inj hasset
          exact ⟨rfl, BitVec.lt_def.mp hpos⟩
        · cases hasset
      · split
        · rw [hleft, Option.toList_some, List.map_singleton, List.sum_singleton]
          exact (congrArg (· + left) hrefunded).trans hadd
        · -- nothing is refunded when there is nothing to refund
          rename_i hpos
          have hzero : refunded = 0 := by
            rw [gt_iff_lt, BitVec.lt_def, hrefunded] at hpos
            exact Nat.eq_zero_of_not_pos hpos
          rw [hleft, Option.toList_none, List.map_nil, List.sum_nil]
          omega
      · intro l' balance' hmatch'
        obtain rfl := hcfg.matched_id id _ _ _ _ _ _ hmatch hmatch'
        rw [hleft]
        exact hmin

/-! ## The accounts of an execution -/

/-- The events of a trader's calls. -/
abbrev TraderEvent (cfg : Config) : Type :=
  Event (Trader cfg) (Op cfg) (Failure XcmError) (Answer cfg)

/-- The event is a sale of weight for a payment, of which `unused` is returned. -/
def Sells (e : TraderEvent cfg) (payment unused : cfg.Assets) : Prop :=
  (∃ charge weight, e.op = .buyWeight charge weight payment) ∧ e.result = .ok (.unused unused)

/-- What an event refunds. -/
def refunded (e : TraderEvent cfg) : List (MultiAsset cfg.AssetId) :=
  match e.result with
  | .ok (.refund asset) => asset.toList
  | _ => []

/-- Nothing was sold, and so nothing is refunded. -/
structure Unsold (past : List (TraderEvent cfg)) : Prop where
  sells : ∀ e ∈ past, ∀ payment unused, ¬Sells e payment unused
  refunds : past.flatMap refunded = []

/-- The accounts of `past`, after which `asset` is left: `payment` is what is returned, what is
    refunded and what is left, all of one asset, of which the minimum balance is left. -/
structure Settled (past : List (TraderEvent cfg)) (payment unused : cfg.Assets)
    (asset : MultiAsset cfg.AssetId) : Prop where
  refunds : ∀ refund ∈ past.flatMap refunded, refund.id = asset.id ∧ 0 < amountOf refund
  balance : cfg.amount payment asset.id = cfg.amount unused asset.id +
    ((past.flatMap refunded).map amountOf).sum + amountOf asset
  others : ∀ id, id ≠ asset.id → cfg.amount payment id = cfg.amount unused id
  covered : ∃ n, asset.fungibility = .fungible n ∧ Covered asset n

/-- The invariant: nothing is sold yet, or there has been one sale, and since then refunds. -/
inductive Accounted (past : List (TraderEvent cfg)) : Trader cfg → Prop where
  | unsold (h : Unsold past) : Accounted past none
  | sold {before : List (TraderEvent cfg)} {e : TraderEvent cfg} {later : List (TraderEvent cfg)}
      {payment unused : cfg.Assets} {refunder : AssetTraderRefunder cfg}
      (split : past = before ++ e :: later) (hbefore : Unsold before)
      (sells : Sells e payment unused)
      (only : ∀ e' ∈ later, ∀ payment unused, ¬Sells e' payment unused)
      (settled : Settled later payment unused refunder.outstandingConcreteAsset) :
      Accounted past (some refunder)

/-- Nothing was sold, and nothing is. -/
theorem not_sells_concat {l : List (TraderEvent cfg)} {e : TraderEvent cfg}
    (hl : ∀ e' ∈ l, ∀ payment unused, ¬Sells e' payment unused)
    (he : ∀ payment unused, ¬Sells e payment unused) :
    ∀ e' ∈ l ++ [e], ∀ payment unused, ¬Sells e' payment unused := by
  intro e' he'
  rcases List.mem_append.mp he' with he' | he'
  · exact hl e' he'
  · rw [List.mem_singleton.mp he']
    exact he

/-- A refund moves a part of what is left to what is refunded. -/
theorem Settled.refund {later : List (TraderEvent cfg)} {payment unused : cfg.Assets}
    {id : cfg.AssetId} {n n' : U128} (h : Settled later payment unused ⟨id, .fungible n⟩)
    {e : TraderEvent cfg} {refund : Option (MultiAsset cfg.AssetId)}
    (hrefunded : refunded e = refund.toList)
    (hrefund : ∀ asset ∈ refund, asset.id = id ∧ 0 < amountOf asset)
    (hsum : (refund.toList.map amountOf).sum + n'.toNat = n.toNat)
    (hcovered : Covered (⟨id, .fungible n'⟩ : MultiAsset cfg.AssetId) n') :
    Settled (later ++ [e]) payment unused ⟨id, .fungible n'⟩ := by
  refine ⟨fun asset hasset => ?_, ?_, h.others, n', rfl, hcovered⟩
  · rw [List.flatMap_append, List.flatMap_singleton, hrefunded] at hasset
    rcases List.mem_append.mp hasset with hasset | hasset
    · exact h.refunds asset hasset
    · exact hrefund asset (Option.mem_toList.mp hasset)
  · rw [List.flatMap_append, List.flatMap_singleton, hrefunded, List.map_append, List.sum_append]
    have hbalance : cfg.amount payment id = cfg.amount unused id +
      ((later.flatMap refunded).map amountOf).sum + n.toNat := h.balance
    show cfg.amount payment id = cfg.amount unused id +
      (((later.flatMap refunded).map amountOf).sum + (refund.toList.map amountOf).sum) + n'.toNat
    omega

/-- An event that neither sells nor refunds changes no accounts. -/
theorem Accounted.idle {past : List (TraderEvent cfg)} {s : Trader cfg} (h : Accounted past s)
    {e : TraderEvent cfg} (hsells : ∀ payment unused, ¬Sells e payment unused)
    (hrefunded : refunded e = []) : Accounted (past ++ [e]) s := by
  -- the event adds nothing to the refunds, wherever the list begins
  have hflat : ∀ l : List (TraderEvent cfg),
      (l ++ [e]).flatMap refunded = l.flatMap refunded := fun l => by
    rw [List.flatMap_append, List.flatMap_singleton, hrefunded, List.append_nil]
  cases h with
  | unsold h => exact .unsold ⟨not_sells_concat h.sells hsells, (hflat past).trans h.refunds⟩
  | @sold before e₀ later payment unused _ split hbefore sells only settled =>
    refine .sold (by rw [split, List.append_assoc, List.cons_append]) hbefore sells
      (not_sells_concat only hsells) ⟨?_, ?_, settled.others, settled.covered⟩
    · rw [hflat]
      exact settled.refunds
    · rw [hflat]
      exact settled.balance

/-- A sale opens the accounts; a refused one leaves them. -/
theorem Accounted.buy (hcfg : cfg.Documented) {past : List (TraderEvent cfg)} {s : Trader cfg}
    (h : Accounted past s) (charge : Charge cfg) (weight : Weight) (payment : cfg.Assets) :
    Accounted (past ++ [event apply s (.buyWeight charge weight payment)])
      (step apply s (.buyWeight charge weight payment)) := by
  cases hok : buyWeight charge weight payment s with
  | error f =>
    have happly : apply (.buyWeight charge weight payment) s = .error f := by rw [apply, hok]; rfl
    have hresult : (event apply s (.buyWeight charge weight payment)).result = .error f :=
      event_result_eq_error.mpr happly
    rw [step_of_error happly]
    -- a call that fails neither sells nor refunds
    refine h.idle (fun _ _ hsells => ?_) (by rw [refunded, hresult])
    rw [Sells, hresult] at hsells
    exact nomatch hsells.2
  | ok p =>
    obtain ⟨unused, s'⟩ := p
    have happly : apply (.buyWeight charge weight payment) s = .ok (.unused unused, s') := by
      rw [apply, hok]; rfl
    have hresult : (event apply s (.buyWeight charge weight payment)).result =
        .ok (.unused unused) := event_result_eq_ok.mpr (happly.trans (by rw [step_of_ok happly]))
    -- a trader that has sold before refuses, so this is the first sale
    obtain ⟨rfl, id, n, rfl, hsub, hcovered⟩ := buyWeight_eq_ok hcfg hok
    obtain ⟨hbalance, hothers⟩ := hcfg.checkedSub _ _ _ _ hsub
    rw [step_of_ok happly]
    cases h with
    | unsold h =>
      exact .sold rfl h ⟨⟨charge, weight, rfl⟩, hresult⟩ nofun
        ⟨nofun, hbalance, hothers, n, rfl, hcovered⟩

/-- A refund of any weight, before or after the purchase. -/
theorem Accounted.refund (hcfg : cfg.Documented) {past : List (TraderEvent cfg)} {s : Trader cfg}
    (h : Accounted past s) (charge : Charge cfg) (weight : Weight) :
    Accounted (past ++ [event apply s (.refundWeight charge weight)])
      (step apply s (.refundWeight charge weight)) := by
  have hsells : ∀ payment unused, ¬Sells (event apply s (.refundWeight charge weight)) payment
      unused := fun _ _ hsells => by
    obtain ⟨⟨_, _, hop⟩, _⟩ := hsells
    cases hop
  cases h with
  | unsold h => exact (Accounted.unsold h).idle hsells rfl
  | @sold before e later payment unused refunder split hbefore sells only settled =>
    -- the refund comes out of what the sale and the refunds since have left
    obtain ⟨w, id, fungibility⟩ := refunder
    obtain ⟨n, rfl, hcovered⟩ : ∃ n, fungibility = .fungible n ∧ _ := settled.covered
    obtain ⟨refund, w', n', heq, hrefund, hsum, hcovered'⟩ :=
      refundWeight_spec hcfg charge weight (w := w) hcovered
    have happly : apply (.refundWeight charge weight) (some ⟨w, ⟨id, .fungible n⟩⟩) =
        .ok (.refund refund, some ⟨w', ⟨id, .fungible n'⟩⟩) := by
      rw [apply, heq]
    have hrefunded : refunded (event apply (some ⟨w, ⟨id, .fungible n⟩⟩)
        (.refundWeight charge weight)) = refund.toList := by
      rw [refunded, event_result_eq_ok.mpr (happly.trans (by rw [step_of_ok happly]))]
    rw [step_of_ok happly]
    exact .sold (by rw [split, List.append_assoc, List.cons_append]) hbefore sells
      (not_sells_concat only hsells) (settled.refund hrefunded hrefund hsum hcovered')

/-- One call keeps the accounts. -/
theorem Accounted.step (hcfg : cfg.Documented) {past : List (TraderEvent cfg)} {s : Trader cfg}
    (h : Accounted past s) (op : Op cfg) :
    Accounted (past ++ [event apply s op]) (step apply s op) := by
  cases op with
  | buyWeight charge weight payment => exact h.buy hcfg charge weight payment
  | refundWeight charge weight => exact h.refund hcfg charge weight

/-- The accounts of an execution, whatever is asked of the trader and in which order. If it has
    sold nothing, it has refunded nothing and drops nothing. If it has something to drop, it has
    sold weight exactly once and refunded nothing before; the payment is what was returned of it,
    what was refunded since and what is dropped, each asset for itself; the refunds are all of
    the asset that is dropped, and its minimum balance is dropped at least. -/
theorem payment_accounted (hcfg : cfg.Documented) (ops : List (Op cfg)) :
    let past := history apply none ops
    (drop (run apply none ops) = none → Unsold past) ∧
      ∀ asset, drop (run apply none ops) = some asset →
        ∃ before e later payment unused, past = before ++ e :: later ∧ Unsold before ∧
          Sells e payment unused ∧ (∀ e' ∈ later, ∀ payment unused, ¬Sells e' payment unused) ∧
          Settled later payment unused asset := by
  intro past
  have hall : Accounted past (run apply none ops) :=
    history_induction (P := Accounted) (G := fun _ => True) (.unsold ⟨nofun, rfl⟩)
      (fun _ _ op _ h => h.step hcfg op) ops fun _ _ => trivial
  generalize run apply none ops = s at hall ⊢
  cases hall with
  | unsold h => exact ⟨fun _ => h, nofun⟩
  | sold split hbefore sells only settled =>
    refine ⟨nofun, fun asset hasset => ?_⟩
    obtain rfl := Option.some.inj hasset
    exact ⟨_, _, _, _, _, split, hbefore, sells, only, settled⟩

/-- One asset, of which no less than ten units may be held. -/
def smallConfig : Config where
  AssetId := Nat
  LocalId := Nat
  Assets := Nat
  first n := if n = 0 then none else some ⟨7, .fungible (BitVec.ofNat 128 n)⟩
  checkedSub n asset :=
    match asset.fungibility with
    | .fungible k => if asset.id = 7 ∧ k.toNat ≤ n then some (n - k.toNat) else none
    | .nonFungible _ => none
  amount n id := if id = 7 then n else 0
  matchesFungibles asset :=
    match asset.fungibility with
    | .fungible k => some (asset.id, k.toNat)
    | .nonFungible _ => none
  minimumBalance _ := 10

/-- The small configuration does what the documentation says. -/
theorem smallConfig_documented : smallConfig.Documented where
  checkedSub payment id n unused h := by
    dsimp only [smallConfig] at h ⊢
    split at h
    · rename_i hle
      obtain rfl := Option.some.inj h
      obtain ⟨rfl, hle⟩ := hle
      exact ⟨(Nat.sub_add_cancel hle).symm, fun id' hne => (if_neg hne).trans (if_neg hne).symm⟩
    · cases h
  matched_amount _ _ _ _ h := (Prod.mk.inj (Option.some.inj h)).2.symm
  matched_id id f f' l l' _ _ h h' := by
    cases f <;> cases f' <;> cases h <;> cases h'
    rfl

/-- A unit of time costs a unit of the asset. -/
private def price : Charge smallConfig := fun _ weight => .ok weight.refTime.toNat

/-- Fifty of a hundred units are sold, more weight is taken back than that, and a second sale is
    refused. -/
private def traderOps : List (Op smallConfig) :=
  [.buyWeight price ⟨50, 0⟩ (100 : Nat), .refundWeight price ⟨20, 0⟩,
    .refundWeight price ⟨100, 0⟩, .buyWeight price ⟨5, 0⟩ (50 : Nat)]

/-- A purchase and refunds, and what is left of the payment. -/
theorem payment_accounted_sample :
    ∃ before e later payment unused, history apply none traderOps = before ++ e :: later ∧
      Sells e payment unused ∧
      Settled later payment unused
        (⟨(7 : Nat), .fungible 10⟩ : MultiAsset smallConfig.AssetId) := by
  obtain ⟨before, e, later, payment, unused, hsplit, _, hsells, _, hsettled⟩ :=
    (payment_accounted smallConfig_documented traderOps).2 ⟨(7 : Nat), .fungible 10⟩ rfl
  exact ⟨before, e, later, payment, unused, hsplit, hsells, hsettled⟩

end Paraxiom.AssetTrader
