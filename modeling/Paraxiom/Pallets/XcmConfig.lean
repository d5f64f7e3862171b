import Paraxiom.ForStd.Scale

/-!
# The barrier against XCM messages

`runtime/paraxiom/src/xcm_config.rs`: what a message from another chain has to pass before it
is executed. `DenyThenTry` refuses what its filter refuses and leaves the rest to a list of
barriers, one of which has to accept it.

The message format, the barriers in the list and the way in which a list of barriers is tried
come from other crates. The format is modelled as far as the barrier reads it: what only the
executor looks at is kept as its SCALE encoding. The barriers and the list are parameters.
-/

namespace Paraxiom.XcmConfig

open Scale

/-! ## Messages -/

/-- `BodyId`: the executive, or the encoding of another body. -/
inductive BodyId where
  | executive
  | other (encoded : Bytes)
deriving DecidableEq

/-- `Junction`: a part of a body, or the encoding of another junction. -/
inductive Junction where
  | plurality (id : BodyId) (part : Bytes)
  | other (encoded : Bytes)
deriving DecidableEq

/-- `Junctions`: `Here`, or one of `X1` to `X8`. -/
structure Junctions where
  toList : List Junction
  length_le : toList.length ≤ 8
deriving DecidableEq

/-- `Here`. -/
def Junctions.here : Junctions := ⟨[], by decide⟩

/-- `X1`. -/
def Junctions.x1 (junction : Junction) : Junctions := ⟨[junction], by simp⟩

/-- `MultiLocation`. -/
structure MultiLocation where
  parents : UInt8
  interior : Junctions
deriving DecidableEq

/-- `MultiLocation { parents: 1, interior: Here }`, the relay chain. -/
def MultiLocation.parent : MultiLocation := ⟨1, .here⟩

/-- `Instruction`. The `xcm` of a reserve transfer is sent to another chain; that of an error
    handler or an appendix is put into a register of the executor. The other instructions carry
    no program that is executed on this chain. -/
inductive Instruction where
  | initiateReserveWithdraw (assets : Bytes) (reserve : MultiLocation) (xcm : List Instruction)
  | depositReserveAsset (assets : Bytes) (maxAssets : UInt32) (dest : MultiLocation)
      (xcm : List Instruction)
  | transferReserveAsset (assets : Bytes) (dest : MultiLocation) (xcm : List Instruction)
  | setErrorHandler (xcm : List Instruction)
  | setAppendix (xcm : List Instruction)
  | other (encoded : Bytes)

/-- `Xcm`. -/
abbrev Xcm := List Instruction

/-! ## Barriers -/

/-- `ShouldExecute::should_execute(origin, message, max_weight, weight_credit)`. A barrier may
    change the message and the credit of a message that it accepts. What a refusing barrier
    leaves in its arguments is dropped. -/
abbrev ShouldExecute := MultiLocation → Xcm → UInt64 → UInt64 → Except Unit (Xcm × UInt64)

/-- `DenyThenTry`. -/
def denyThenTry (deny allow : ShouldExecute) : ShouldExecute :=
  fun origin message maxWeight weightCredit => do
    let (message, weightCredit) ← deny origin message maxWeight weightCredit
    allow origin message maxWeight weightCredit

/-- The instructions that the filter looks for. -/
def isReserveTransferToRelayChain : Instruction → Bool
  | .initiateReserveWithdraw _ reserve _ => reserve = .parent
  | .depositReserveAsset _ _ dest _ => dest = .parent
  | .transferReserveAsset _ dest _ => dest = .parent
  | _ => false

/-- `DenyReserveTransferToRelayChain`. -/
def denyReserveTransferToRelayChain : ShouldExecute :=
  fun _ message _ weightCredit =>
    if message.any isReserveTransferToRelayChain then
      .error ()
    else
      -- a `ReserveAssetDeposited` from the relay chain is logged here, and permitted
      .ok (message, weightCredit)

/-- What the barrier takes from `xcm_builder` and `xcm_executor`. A `Contains<MultiLocation>` is
    its `contains`; a tuple of barriers is the list of them. -/
structure XcmBuilder where
  takeWeightCredit : ShouldExecute
  allowTopLevelPaidExecutionFrom : (MultiLocation → Bool) → ShouldExecute
  allowUnpaidExecutionFrom : (MultiLocation → Bool) → ShouldExecute
  tuple : List ShouldExecute → ShouldExecute

/-- `Everything`. -/
def everything : MultiLocation → Bool := fun _ => true

/-- `ParentOrParentsExecutivePlurality`. -/
def parentOrParentsExecutivePlurality (location : MultiLocation) : Bool :=
  location.parents = 1 &&
    match location.interior.toList with
    | [] => true
    | [.plurality .executive _] => true
    | _ => false

/-- The tuple of barriers in `Barrier`. -/
def allowList (builder : XcmBuilder) : List ShouldExecute := [
  builder.takeWeightCredit,
  builder.allowTopLevelPaidExecutionFrom everything,
  -- the parent and its executive plurality get free execution
  builder.allowUnpaidExecutionFrom parentOrParentsExecutivePlurality]

/-- `Barrier`. -/
def barrier (builder : XcmBuilder) : ShouldExecute :=
  denyThenTry denyReserveTransferToRelayChain (builder.tuple (allowList builder))

end Paraxiom.XcmConfig
