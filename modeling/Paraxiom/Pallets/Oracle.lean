import Paraxiom.Pallets.Anchor
import Paraxiom.Pallets.Registry

/-!
# The oracle pallet

`pallets/oracle/src/lib.rs` and `types.rs`. `request` turns a registered feed into a
message for a rollup queue; `onResponse` files the answer a rollup sends back.

The randomness source is a parameter: `random block subject` is what
`OracleRandomness::random(subject)` returns in block `block`.
-/

namespace Paraxiom.Oracle

open Scale

abbrev RequestId := H256
abbrev ResponseData := Anchor.ValueBytes
abbrev RequestData := Anchor.ValueBytes

/-- `Config`, with the configurations of the two pallets it builds on. -/
structure Config where
  registry : Registry.Config
  anchor : Anchor.Config
  random : BlockNumber → Bytes → H256 × UInt32

/-- The pallet in the runtime, with the name itself for its storage hash and a randomness
    that tells the block and whether the subject is empty. -/
def sampleConfig : Config where
  registry := Registry.runtimeConfig
  anchor := Anchor.sampleConfig
  random block subject :=
    (⟨(if subject = [] then 0 else 1) :: writeLE 31 block,
      by rw [List.length_cons, length_writeLE]⟩, 0)

variable (cfg : Config) (AccountId : Type)

/-- `Request`. -/
structure Request where
  registryFeedKey : Registry.RegistryFeedKey cfg.registry
  caller : AccountId
  nonce : U128
  requestedData : RequestData
deriving DecidableEq

/-- `ResponseRecord`. -/
structure ResponseRecord where
  owner : AccountId
  phatContractId : H256
  requestId : RequestId
  responseData : ResponseData
  timestampMs : UInt64
deriving DecidableEq

/-- The derived codec: the fields in order. -/
instance [Codec AccountId] : Codec (ResponseRecord AccountId) where
  encode r := encode (r.owner, r.phatContractId, r.requestId, r.responseData, r.timestampMs)
  decode bs :=
    (decode (α := AccountId × H256 × RequestId × ResponseData × UInt64) bs).map
      fun (r, rest) => (⟨r.1, r.2.1, r.2.2.1, r.2.2.2.1, r.2.2.2.2⟩, rest)

instance [Codec AccountId] [LawfulCodec AccountId] : LawfulCodec (ResponseRecord AccountId) where
  decode_encode_append r rest := by
    have h := decode_encode_append
      (r.owner, r.phatContractId, r.requestId, r.responseData, r.timestampMs) rest
    show Option.map _ (decode (encode (r.owner, r.phatContractId, r.requestId, r.responseData,
      r.timestampMs) ++ rest)) = _
    rw [h]; rfl

inductive Event where
  | responseRecordReceived (submitter : AccountId) (phatContractId : H256)
      (requestId : RequestId) (responseData : ResponseData) (timestampMs : UInt64)
  | oracleRequest (caller : AccountId) (requestId : RequestId)
      (registryFeedKey : Registry.RegistryFeedKey cfg.registry)

/-- The storage that requests and responses use, and the events deposited. -/
structure State where
  feedRequests : RequestId → Option (Request cfg AccountId)
  feedData : AccountId → Request cfg AccountId → Option ResponseData
  events : List (Event cfg AccountId)

variable {cfg AccountId}

/-- Empty storage. -/
def genesis : State cfg AccountId := ⟨fun _ => none, fun _ _ => none, []⟩

/-- `FeedRequests::insert`. -/
def State.insertRequest (s : State cfg AccountId) (requestId : RequestId)
    (request : Request cfg AccountId) : State cfg AccountId :=
  { s with feedRequests := Function.update s.feedRequests requestId (some request) }

/-- `FeedData::insert`. -/
def State.insertData [DecidableEq AccountId] (s : State cfg AccountId) (submitter : AccountId)
    (request : Request cfg AccountId) (data : ResponseData) : State cfg AccountId :=
  { s with
    feedData := Function.update s.feedData submitter
      (Function.update (s.feedData submitter) request (some data)) }

/-- `OracleRandomness::random_seed()`. -/
def randomSeed (cfg : Config) (block : BlockNumber) : H256 × UInt32 := cfg.random block []

/-- The request id that `request` draws. The `.1` is the source's `.0`: it takes the random
    seed out of the pair and leaves the nonce behind. -/
def drawRequestId (cfg : Config) (block : BlockNumber) (nonce : U128) : RequestId :=
  let seed := encode (randomSeed cfg block, nonce).1
  (cfg.random block seed).1

/-- The queue a request goes to: the last name in storage order. -/
def selectName (cfg : Config) (anchor : Anchor.State AccountId) : Option H256 :=
  (anchor.submitterByNames.iterKeys cfg.anchor.storageHash).getLast?

/-- An oracle request for information. -/
def request (block : BlockNumber) (registry : Registry.State cfg.registry AccountId)
    (origin : Origin AccountId) (registryFeedKey : Registry.RegistryFeedKey cfg.registry)
    (nonce : U128) (s : Anchor.State AccountId × State cfg AccountId) :
    Exec DispatchError (Anchor.State AccountId × State cfg AccountId) := do
  let who ← ensureSigned origin
  let apiFeed ← okOr (registry.apiFeeds who registryFeedKey) (.oracle .failedToGetApiFeed)
  ensure apiFeed.status.isActive (.oracle .apiFeedNotActive)
  let requestId := drawRequestId cfg block nonce
  let data ← okOr (BoundedVec.tryFrom 2048 (encode (requestId, apiFeed.url, apiFeed.path)))
    (.oracle .failedToEncodeData)
  -- Kept before the push, and undone with the call when the push fails.
  let oracle := s.2.insertRequest requestId ⟨registryFeedKey, who, nonce, data⟩
  let name ← okOr (selectName cfg s.1) (.oracle .failedToFindOracleFeeds)
  -- `map_err` forgets why the anchor refused; a panic is not an error and passes.
  let (_, anchor) ← Exec.mapErr (fun _ => .oracle .failedToPushMessageToAnchor)
    (Anchor.pushMessage cfg.anchor name data s.1)
  return (anchor, { oracle with
    events := oracle.events ++ [.oracleRequest who requestId registryFeedKey] })

/-- `feeds` checks its origin and does nothing. -/
def feeds (origin : Origin AccountId) (s : State cfg AccountId) :
    Exec DispatchError (State cfg AccountId) := do
  let _ ← ensureSigned origin
  return s

/-- `average` is not implemented. -/
def average (origin : Origin AccountId) (_s : State cfg AccountId) :
    Exec DispatchError (State cfg AccountId) := do
  let _ ← ensureSigned origin
  throw (.panic "not yet implemented: implement an average aggergator")

/-- `OnResponse::on_response`. -/
def onResponse [DecidableEq AccountId] [Codec AccountId] :
    Anchor.OnResponse AccountId (State cfg AccountId) := fun name submitter data s => do
  let resp ← okOr ((decode (α := ResponseRecord AccountId) data).map Prod.fst)
    (.oracle .failedToDecodeResponse)
  -- The name that the record states is compared, the owner in it is not.
  ensure (resp.phatContractId = name) (.oracle .failedToAuthenticateResponse)
  let requestedData ← okOr (s.feedRequests resp.requestId) (.oracle .failedToGetFeedRequest)
  -- Filed under who submits the rollup.
  let s := s.insertData submitter requestedData resp.responseData
  return { s with
    events := s.events ++ [.responseRecordReceived submitter name resp.requestId
      resp.responseData resp.timestampMs] }

end Paraxiom.Oracle
