import Paraxiom.Pallets.Frame

/-!
# The feed registry

`pallets/registry/src/lib.rs` and `types.rs`. An account registers feeds under keys of its
own; the oracle pallet reads them.
-/

namespace Paraxiom.Registry

open Scale

/-- `Config`: the size limits, as `u32` constants. -/
structure Config where
  maxUrlSize : UInt32
  maxKeySize : UInt32
  maxPathSize : UInt32

/-- The pallet as `runtime/paraxiom/src/lib.rs` configures it. -/
def runtimeConfig : Config := ⟨512, 128, 256⟩

variable (cfg : Config)

abbrev RegistryFeedKey := BoundedVec cfg.maxKeySize.toNat
abbrev RegistryFeedUrl := BoundedVec cfg.maxUrlSize.toNat
abbrev RegistryFeedPath := BoundedVec cfg.maxPathSize.toNat

instance (bound : UInt32) : LawfulCodec (BoundedVec bound.toNat) :=
  BoundedVec.lawfulCodec bound.toNat_lt

/-- `ApiFeedStatus`. -/
inductive ApiFeedStatus where
  | registered
  | active
  | inactive
  | slashed
deriving DecidableEq

/-- `is_active`. -/
def ApiFeedStatus.isActive (status : ApiFeedStatus) : Bool := status = .active

/-- `ApiFeed`. -/
structure ApiFeed where
  startedAt : BlockNumber
  url : RegistryFeedUrl cfg
  path : RegistryFeedPath cfg
  status : ApiFeedStatus
deriving DecidableEq

/-- The pallet's events. -/
inductive Event (AccountId : Type) where
  | feedRegistered (caller : AccountId) (key : RegistryFeedKey cfg) (feed : ApiFeed cfg)
  | feedUnregistered (caller : AccountId) (key : RegistryFeedKey cfg) (feed : ApiFeed cfg)

/-- The pallet's storage and the events it deposited. -/
structure State (AccountId : Type) where
  apiFeeds : AccountId → RegistryFeedKey cfg → Option (ApiFeed cfg)
  events : List (Event cfg AccountId)

variable {AccountId : Type} {cfg}

/-- Empty storage. -/
def genesis : State cfg AccountId := ⟨fun _ _ => none, []⟩

/-- `ApiFeeds::insert` (with a feed) and `ApiFeeds::remove` (with none). -/
def State.setFeed [DecidableEq AccountId] (s : State cfg AccountId) (who : AccountId)
    (key : RegistryFeedKey cfg) (feed : Option (ApiFeed cfg)) : State cfg AccountId :=
  { s with apiFeeds := Function.update s.apiFeeds who (Function.update (s.apiFeeds who) key feed) }

/-- Checks if a feed exists and is active. -/
def isActive (accountId : AccountId) (key : RegistryFeedKey cfg) (s : State cfg AccountId) : Bool :=
  match s.apiFeeds accountId key with
  | some feed => feed.status = .active
  | none => false

variable [DecidableEq AccountId]

/-- Adds an API feed. -/
def registerFeed (block : BlockNumber) (origin : Origin AccountId) (key : RegistryFeedKey cfg)
    (url : RegistryFeedUrl cfg) (path : RegistryFeedPath cfg) (s : State cfg AccountId) :
    Exec DispatchError (State cfg AccountId) := do
  let who ← ensureSigned origin
  let feed : ApiFeed cfg := ⟨block, url, path, .registered⟩
  return { s.setFeed who key (some feed) with
    events := s.events ++ [.feedRegistered who key feed] }

/-- Removes a feed from storage. -/
def unregisterFeed (origin : Origin AccountId) (key : RegistryFeedKey cfg)
    (s : State cfg AccountId) : Exec DispatchError (State cfg AccountId) := do
  let who ← ensureSigned origin
  match s.apiFeeds who key with
  | some feed =>
    return { s.setFeed who key none with
      events := s.events ++ [.feedUnregistered who key feed] }
  | none => throw (.err .cannotLookup)

end Paraxiom.Registry
