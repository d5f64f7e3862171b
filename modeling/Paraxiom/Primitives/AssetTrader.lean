import Paraxiom.Pallets.Frame

/-!
# The asset trader

`TakeFirstAssetTrader` of `primitives/utility/src/lib.rs`, which sells the weight that an XCM
message is executed with for the first asset of those it pays with, and takes unused weight back.

The assets, the matcher, the fee charger and the ledger of the local assets are parameters of the
trader in the source as well. What a weight costs may change from call to call.
-/

namespace Paraxiom.AssetTrader

/-- `Weight`. -/
structure Weight where
  refTime : UInt64
  proofSize : UInt64
deriving DecidableEq

/-- `saturating_sub`. -/
def Weight.saturatingSub (self rhs : Weight) : Weight where
  refTime := if self.refTime < rhs.refTime then 0 else self.refTime - rhs.refTime
  proofSize := if self.proofSize < rhs.proofSize then 0 else self.proofSize - rhs.proofSize

/-- `Fungibility`; an instance is its encoding. -/
inductive Fungibility where
  | fungible (amount : U128)
  | nonFungible (inst : Scale.Bytes)
deriving DecidableEq

/-- `MultiAsset`. -/
structure MultiAsset (AssetId : Type) where
  id : AssetId
  fungibility : Fungibility
deriving DecidableEq

/-- `XcmError`: the errors of the trader, and those that a fee charger may come up with. -/
inductive XcmError where
  | notWithdrawable
  | assetNotFound
  | overflow
  | tooExpensive
  | other (index : Nat)
deriving DecidableEq

/-- What the trader is instantiated with. A local balance is a number of no particular width. -/
structure Config where
  AssetId : Type
  LocalId : Type
  /-- `xcm_executor::Assets`, with the first of them in their order, and `checked_sub`. -/
  Assets : Type
  first : Assets → Option (MultiAsset AssetId)
  checkedSub : Assets → MultiAsset AssetId → Option Assets
  /-- The amount of a fungible asset among them. -/
  amount : Assets → AssetId → Nat
  /-- `Matcher::matches_fungibles`. -/
  matchesFungibles : MultiAsset AssetId → Option (LocalId × Nat)
  /-- `ConcreteAssets::minimum_balance`. -/
  minimumBalance : LocalId → Nat

/-- `FeeCharger::charge_weight_in_fungibles`. -/
abbrev Charge (cfg : Config) : Type := cfg.LocalId → Weight → Except XcmError Nat

/-- `AssetTraderRefunder`. -/
structure AssetTraderRefunder (cfg : Config) where
  weightOutstanding : Weight
  outstandingConcreteAsset : MultiAsset cfg.AssetId

/-- `TakeFirstAssetTrader`: what was bought, if anything was. -/
abbrev Trader (cfg : Config) : Type := Option (AssetTraderRefunder cfg)

/-- `u128::try_from`. -/
def tryIntoU128 (n : Nat) : Option U128 := if n < 2 ^ 128 then some (BitVec.ofNat 128 n) else none

/-- `saturated_into::<u128>`. -/
def saturatedIntoU128 (n : Nat) : U128 := BitVec.ofNat 128 (min n (2 ^ 128 - 1))

variable {cfg : Config}

/-- Sells weight. The first asset of the payment is charged, at least its minimum balance; the
    rest is returned. -/
def buyWeight (charge : Charge cfg) (weight : Weight) (payment : cfg.Assets) (self : Trader cfg) :
    Exec XcmError (cfg.Assets × Trader cfg) := do
  -- not twice
  ensure self.isNone .notWithdrawable
  let first ← okOr (cfg.first payment) .assetNotFound
  let (localAssetId, _) ← okOr (cfg.matchesFungibles first) .assetNotFound
  let amount ← (charge localAssetId weight).mapError .err
  let minimumBalance := cfg.minimumBalance localAssetId
  let assetBalance := if amount < minimumBalance then minimumBalance else amount
  let assetBalance ← okOr (tryIntoU128 assetBalance) .overflow
  let required : MultiAsset cfg.AssetId := ⟨first.id, .fungible assetBalance⟩
  let unused ← okOr (cfg.checkedSub payment required) .tooExpensive
  return (unused, some ⟨weight, required⟩)

/-- What is refunded of a balance, and what is left of it: no less than the minimum. -/
def splitRefund (outstandingBalance assetBalance minimumBalance : Nat) : Nat × Nat :=
  if outstandingBalance - assetBalance > minimumBalance then
    (assetBalance, outstandingBalance - assetBalance)
  else
    (outstandingBalance - minimumBalance, minimumBalance)

/-- Takes weight back. What cannot be matched or priced is not refunded. -/
def refundWeight (charge : Charge cfg) (weight : Weight) (self : Trader cfg) :
    Option (MultiAsset cfg.AssetId) × Trader cfg :=
  match self with
  | none => (none, none)
  | some refunder =>
    match cfg.matchesFungibles refunder.outstandingConcreteAsset with
    | none => (none, self)
    | some (localAssetId, outstandingBalance) =>
      match charge localAssetId weight with
      | .error _ => (none, self)
      | .ok assetBalance =>
        let (assetBalance, outstandingMinusSubstracted) :=
          splitRefund outstandingBalance assetBalance (cfg.minimumBalance localAssetId)
        let id := refunder.outstandingConcreteAsset.id
        let refunder := {
          weightOutstanding := refunder.weightOutstanding.saturatingSub weight
          outstandingConcreteAsset :=
            ⟨id, .fungible (saturatedIntoU128 outstandingMinusSubstracted)⟩ }
        let assetBalance := saturatedIntoU128 assetBalance
        (if assetBalance > 0 then some ⟨id, .fungible assetBalance⟩ else none, some refunder)

/-- `drop`: what `take_revenue` gets. -/
def drop (self : Trader cfg) : Option (MultiAsset cfg.AssetId) :=
  self.map (·.outstandingConcreteAsset)

/-! ## The trader as a machine -/

/-- What the executor asks of a trader while it executes a message. -/
inductive Op (cfg : Config) where
  | buyWeight (charge : Charge cfg) (weight : Weight) (payment : cfg.Assets)
  | refundWeight (charge : Charge cfg) (weight : Weight)

/-- What it is answered: the rest of the payment, or a refund if there is one. -/
inductive Answer (cfg : Config) where
  | unused (assets : cfg.Assets)
  | refund (asset : Option (MultiAsset cfg.AssetId))

def apply (op : Op cfg) (s : Trader cfg) : Exec XcmError (Answer cfg × Trader cfg) :=
  match op with
  | .buyWeight charge weight payment => do
    let (unused, s) ← buyWeight charge weight payment s
    return (.unused unused, s)
  | .refundWeight charge weight =>
    let (asset, s) := refundWeight charge weight s
    .ok (.refund asset, s)

end Paraxiom.AssetTrader
