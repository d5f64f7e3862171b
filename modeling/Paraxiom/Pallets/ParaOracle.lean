import Paraxiom.ForStd.OrderStatistic
import Paraxiom.Pallets.Frame

/-!
# The para-oracle pallet

`pallets/para-oracle/src/lib.rs` and `default_combine_data.rs`. Feeders post lists of keyed
values, at most once in a block; each entry is filed as the feeder's raw value of the key
and the raw values of the key are combined anew.

The set of a bounded size that records who has fed is a parameter, as are the function
that combines raw values and the XCM sender. `T::UnixTime::now()` is an argument of the
calls that read it: it does not change within a block.
-/

namespace Paraxiom.ParaOracle

open Scale OrderStatistic

/-! ## Types -/

/-- Who feeds: an account of this chain, or another parachain. -/
inductive CreatorId (AccountId : Type) where
  | accountId (id : AccountId)
  | paraId (id : ParaId)
deriving DecidableEq

/-- `ApiFeed`. -/
structure ApiFeed where
  requestedBlockNumber : BlockNumber
  url : Option Bytes
  vpath : Option Bytes
deriving DecidableEq

/-- `TimestampedValueT`: an `i64` and the milliseconds at which it was fed. -/
structure TimestampedValue where
  value : Int
  timestamp : U128
deriving DecidableEq

/-- `OracleKeyOf`. -/
abbrev OracleKey (strLimit : Nat) := BoundedVec strLimit

/-- The message `xcm_feed_back` that answers a query. -/
structure FeedBack where
  key : Bytes
  value : Int
deriving DecidableEq

/-- `Config`. `orderedSetInsert` is `OrderedSet::insert`: whether the set took the element,
    and the set afterwards. The storage keys of the double maps are `Twox64Concat` hashes,
    which end in what they hash and so are injective. No call reads the `members`: the checks
    are commented out. -/
structure Config (AccountId : Type) where
  strLimit : Nat
  members : List AccountId
  orderedSetInsert : CreatorId AccountId → List (CreatorId AccountId) →
    Bool × List (CreatorId AccountId)
  combineData : U128 → OracleKey strLimit → List TimestampedValue → Option TimestampedValue →
    Option TimestampedValue
  sendXcm : ParaId → FeedBack → Bool
  storageHash : CreatorId AccountId × OracleKey strLimit → Nat
  storageHash_injective : Function.Injective storageHash

/-- `OrderedSet::insert`, of a set kept in the order `le` with room for `bound` elements. -/
def OrderedSet.insert {α : Type} [DecidableEq α] (le : α → α → Bool) (bound : Nat) (a : α)
    (set : List α) : Bool × List α :=
  if a ∈ set then (false, set)
  else if set.length < bound then (true, set.orderedInsert (fun a b => le a b) a)
  else (false, set)

/-- The variant and the identifier in it. -/
def CreatorId.code : CreatorId Nat → Nat × Nat
  | .accountId id => (0, id)
  | .paraId id => (1, id.toNat)

theorem CreatorId.code_injective : Function.Injective CreatorId.code := by
  intro a b h
  cases a <;> cases b <;> simp_all [CreatorId.code, UInt32.toNat_inj]

/-- Numbers for accounts, and three feeders in a block. The code of creator and key stands
    in for the storage hash. -/
def sampleConfig (combineData : U128 → OracleKey 32 → List TimestampedValue →
    Option TimestampedValue → Option TimestampedValue) : Config Nat where
  strLimit := 32
  members := []
  orderedSetInsert := OrderedSet.insert (fun a b => toLex a.code ≤ toLex b.code) 3
  combineData := combineData
  sendXcm _ _ := true
  storageHash k := Encodable.encode (k.1.code, k.2.toList.map UInt8.toNat)
  storageHash_injective := by
    intro a b h
    obtain ⟨hc, hk⟩ := Prod.mk.inj (Encodable.encode_injective h)
    have hk := List.map_injective_iff.mpr (fun _ _ => UInt8.toNat_inj.mp) hk
    exact Prod.ext (CreatorId.code_injective hc) (BoundedVec.ext hk)

variable {AccountId : Type}

inductive Event (cfg : Config AccountId) where
  | newFeedData (sender : CreatorId AccountId) (values : List (OracleKey cfg.strLimit × Int))
  | newApiFeed (sender : CreatorId AccountId) (key : OracleKey cfg.strLimit) (feed : ApiFeed)
  | apiFeedRemoved (sender : CreatorId AccountId) (key : OracleKey cfg.strLimit) (feed : ApiFeed)

/-- The pallet's storage, the events it deposited and the messages it sent. -/
structure State (cfg : Config AccountId) where
  apiFeeds : StorageMap (CreatorId AccountId × OracleKey cfg.strLimit) ApiFeed
  rawValues : StorageMap (CreatorId AccountId × OracleKey cfg.strLimit) TimestampedValue
  values : OracleKey cfg.strLimit → Option TimestampedValue
  hasDispatched : List (CreatorId AccountId)
  events : List (Event cfg)
  sent : List (ParaId × FeedBack)

variable {cfg : Config AccountId}

/-- Empty storage. -/
def genesis : State cfg := ⟨∅, ∅, fun _ => none, [], [], []⟩

/-! ## Combining raw values -/

/-- The index of the median is one of the list. -/
theorem midIndex_lt {α : Type} (values : List α) {minimumCount : UInt32}
    (h : ¬(UInt32.ofNat values.length < minimumCount ∨ UInt32.ofNat values.length = 0)) :
    (UInt32.ofNat values.length / 2).toNat < values.length := by
  have hcount : UInt32.ofNat values.length ≠ 0 := fun h0 => h (.inr h0)
  rw [Ne, ← UInt32.toNat_inj, UInt32.toNat_ofNat', UInt32.toNat_zero] at hcount
  rw [UInt32.toNat_div, UInt32.toNat_ofNat', show (2 : UInt32).toNat = 2 from rfl]
  omega

/-- `DefaultCombineData::combine_data`. The partial sort is unstable: which of the entries of
    the median value it selects is left to `selectNthUnstableBy`. -/
def defaultCombineData {K : Type} (selectNthUnstableBy : Selection TimestampedValue.value)
    (minimumCount : UInt32) (expiresIn now : U128) (_key : K) (values : List TimestampedValue)
    (prevValue : Option TimestampedValue) : Option TimestampedValue :=
  -- `retain`: a sum that wraps makes a fresh value look expired.
  let values := values.filter fun x => now < x.timestamp + expiresIn
  let count := UInt32.ofNat values.length
  -- Without a quorum the previous value stays, however old it is.
  if h : count < minimumCount ∨ count = 0 then prevValue
  else
    let midIndex := count / 2
    some (selectNthUnstableBy.select values ⟨midIndex.toNat, midIndex_lt values h⟩)

variable [DecidableEq AccountId]

/-- The raw values of a key, in the order of the storage. -/
def readRawValues (key : OracleKey cfg.strLimit) (s : State cfg) : List TimestampedValue :=
  (s.rawValues.iter cfg.storageHash).filterMap fun ((_, k), val) =>
    if key = k then some val else none

/-- The published value of a key. -/
def get (key : OracleKey cfg.strLimit) (s : State cfg) : Option TimestampedValue := s.values key

def combined (now : U128) (key : OracleKey cfg.strLimit) (s : State cfg) :
    Option TimestampedValue :=
  cfg.combineData now key (readRawValues key s) (s.values key)

/-! ## Feeds -/

/-- `RawValues::insert`. -/
def State.insertRaw (s : State cfg) (cid : CreatorId AccountId) (key : OracleKey cfg.strLimit)
    (value : TimestampedValue) : State cfg :=
  { s with rawValues := s.rawValues.insert (cid, key) value }

/-- The body of the loop over a feed's entries. -/
def feedEntry (now : U128) (cid : CreatorId AccountId) (s : State cfg)
    (entry : OracleKey cfg.strLimit × Int) : State cfg :=
  let (key, value) := entry
  let timestamped : TimestampedValue := ⟨value, now⟩
  let s := s.insertRaw cid key timestamped
  -- The feeder's own value is among those combined.
  match combined now key s with
  | some combined => { s with values := Function.update s.values key (some combined) }
  | none => s

/-- What `feed_data` and `xcm_feed_data` do once they know the creator. -/
def feed (now : U128) (cid : CreatorId AccountId) (values : List (OracleKey cfg.strLimit × Int))
    (s : State cfg) : Exec DispatchError (State cfg) := do
  -- The set refuses both who is in it already and who no longer fits.
  let (inserted, set) := cfg.orderedSetInsert cid s.hasDispatched
  let s := { s with hasDispatched := set }
  ensure inserted (.paraOracle .alreadyFeeded)
  let s := values.foldl (feedEntry now cid) s
  return { s with events := s.events ++ [.newFeedData cid values] }

/-- Feed the external value. -/
def feedData (now : U128) (origin : Origin AccountId)
    (values : List (OracleKey cfg.strLimit × Int)) (s : State cfg) :
    Exec DispatchError (State cfg) := do
  let feeder ← ensureSigned origin
  let cid := .accountId feeder
  feed now cid values s

/-- Feed the external value, from a reporter parachain. -/
def xcmFeedData (now : U128) (origin : Origin AccountId)
    (values : List (OracleKey cfg.strLimit × Int)) (s : State cfg) :
    Exec DispatchError (State cfg) := do
  let paraId ← ensureSiblingPara origin
  let cid := .paraId paraId
  feed now cid values s

/-! ## Queries -/

def sendQretToParachain (paraId : ParaId) (key : Bytes) (value : Int) (s : State cfg) :
    Exec DispatchError (State cfg) := do
  ensure (cfg.sendXcm paraId ⟨key, value⟩) (.paraOracle .xcmSendError)
  return { s with sent := s.sent ++ [(paraId, ⟨key, value⟩)] }

/-- Query the feed data, from a feed parachain. -/
def xcmQueryData (origin : Origin AccountId) (key : OracleKey cfg.strLimit) (s : State cfg) :
    Exec DispatchError (State cfg) := do
  let paraId ← ensureSiblingPara origin
  match get key s with
  | some val => sendQretToParachain paraId key.toList val.value s
  | none => throw (.err .cannotLookup)

/-! ## Feed URLs -/

def doSubmitApi (block : BlockNumber) (cid : CreatorId AccountId) (key : OracleKey cfg.strLimit)
    (url vpath : Bytes) (s : State cfg) : Exec DispatchError (State cfg) := do
  let feed : ApiFeed := ⟨block, some url, some vpath⟩
  return { s with
    apiFeeds := s.apiFeeds.insert (cid, key) feed
    events := s.events ++ [.newApiFeed cid key feed] }

def doRemoveApi (cid : CreatorId AccountId) (key : OracleKey cfg.strLimit) (s : State cfg) :
    Exec DispatchError (State cfg) := do
  -- `contains_key`, then `get` and `unwrap`.
  let feedExists := (cid, key) ∈ s.apiFeeds
  if feedExists then
    let feed ← expect (s.apiFeeds.lookup (cid, key))
      "called `Option::unwrap()` on a `None` value"
    return { s with
      apiFeeds := s.apiFeeds.erase (cid, key)
      events := s.events ++ [.apiFeedRemoved cid key feed] }
  else throw (.err .cannotLookup)

/-- Submit the URL endpoint for a feed. -/
def submitApi (block : BlockNumber) (origin : Origin AccountId) (key : OracleKey cfg.strLimit)
    (url vpath : Bytes) (s : State cfg) : Exec DispatchError (State cfg) := do
  let submitter ← ensureSigned origin
  doSubmitApi block (.accountId submitter) key url vpath s

/-- Remove the URL endpoint for a feed. -/
def removeApi (origin : Origin AccountId) (key : OracleKey cfg.strLimit) (s : State cfg) :
    Exec DispatchError (State cfg) := do
  let submitter ← ensureSigned origin
  doRemoveApi (.accountId submitter) key s

/-- Submit the URL endpoint for a feed, from a feed parachain. -/
def xcmSubmitApi (block : BlockNumber) (origin : Origin AccountId) (key : OracleKey cfg.strLimit)
    (url vpath : Bytes) (s : State cfg) : Exec DispatchError (State cfg) := do
  let paraId ← ensureSiblingPara origin
  doSubmitApi block (.paraId paraId) key url vpath s

/-- Remove the URL endpoint for a feed, from a feed parachain. -/
def xcmRemoveApi (origin : Origin AccountId) (key : OracleKey cfg.strLimit) (s : State cfg) :
    Exec DispatchError (State cfg) := do
  let paraId ← ensureSiblingPara origin
  doRemoveApi (.paraId paraId) key s

/-! ## The pallet as a machine -/

/-- `on_finalize`: cleanup for the next block. -/
def onFinalize (s : State cfg) : State cfg := { s with hasDispatched := [] }

/-- The calls of the pallet with the block and the time at which they run, and the end of a
    block. -/
inductive Op (cfg : Config AccountId) where
  | feedData (now : U128) (origin : Origin AccountId) (values : List (OracleKey cfg.strLimit × Int))
  | xcmFeedData (now : U128) (origin : Origin AccountId)
      (values : List (OracleKey cfg.strLimit × Int))
  | xcmQueryData (origin : Origin AccountId) (key : OracleKey cfg.strLimit)
  | submitApi (block : BlockNumber) (origin : Origin AccountId) (key : OracleKey cfg.strLimit)
      (url vpath : Bytes)
  | removeApi (origin : Origin AccountId) (key : OracleKey cfg.strLimit)
  | xcmSubmitApi (block : BlockNumber) (origin : Origin AccountId) (key : OracleKey cfg.strLimit)
      (url vpath : Bytes)
  | xcmRemoveApi (origin : Origin AccountId) (key : OracleKey cfg.strLimit)
  | onFinalize

/-- Execute one call, or end the block. -/
def dispatch (op : Op cfg) (s : State cfg) : Exec DispatchError (State cfg) :=
  match op with
  | .feedData now origin values => feedData now origin values s
  | .xcmFeedData now origin values => xcmFeedData now origin values s
  | .xcmQueryData origin key => xcmQueryData origin key s
  | .submitApi block origin key url vpath => submitApi block origin key url vpath s
  | .removeApi origin key => removeApi origin key s
  | .xcmSubmitApi block origin key url vpath => xcmSubmitApi block origin key url vpath s
  | .xcmRemoveApi origin key => xcmRemoveApi origin key s
  | .onFinalize => .ok (onFinalize s)

/-- The pallet as a transactional machine without answers. -/
def apply (op : Op cfg) (s : State cfg) : Exec DispatchError (Unit × State cfg) := do
  let s ← dispatch op s
  return ((), s)

end Paraxiom.ParaOracle
