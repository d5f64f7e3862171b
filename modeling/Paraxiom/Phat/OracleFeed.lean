import Paraxiom.Pallets.Anchor

/-!
# The oracle feed contract

`process_queue_request` and `feed_request` of `phat/contracts/phat_oracle_feed/lib.rs`: the
consumer of the messages that the oracle pallet pushes, and the sender of the answers. The
rollup client is a third-party crate; what the contract uses of it are parameters: `connect`
reads the store that the anchor keeps for the contract, `pop` takes the next message from the
queue under a prefix, `commit` builds the rollup of one reply and `submit` sends it.
-/

namespace Paraxiom.PhatOracleFeed

open Scale

inductive Error where
  | badOrigin
  | notConfigured
  | invalidKeyLength
  | failedToCreateClient
  | failedToCommitTx
  | failedToFetchPrice
  | failedToGetNameOwner
  | failedToClaimName
  | failedToGetStorage
  | failedToCreateTransaction
  | failedToSendTransaction
  | failedToGetBlockHash
  | failedToDecode
  | rollupAlreadyInitialized
  | rollupConfiguredByAnotherAccount
deriving DecidableEq

/-- `Config`. -/
structure Config where
  rpc : String
  palletId : UInt8
  submitKey : FixedBytes 32
deriving DecidableEq

/-- `(Vec<u8>, Vec<u8>, Vec<u8>)`: url, path and request id. -/
abbrev Req := Bytes × Bytes × Bytes

/-- `b"q/"`, the queue prefix of the client. -/
def queuePrefix : Bytes := [0x71, 0x2f]

/-- `queue.pop` on the queue under a prefix of a store: an error, nothing, or a message. -/
abbrev Pop := Bytes → Anchor.Store → Option (Option Bytes)

def ensureConfigured (config : Option Config) : Exec Error Config :=
  okOr config .notConfigured

/-- Takes the next request from the queue and decodes it; the result is what the contract
    logs, or none when the queue is empty. -/
def processQueueRequest (connect : Config → Option Anchor.Store) (pop : Pop)
    (config : Option Config) : Exec Error (Option Req) := do
  let config ← ensureConfigured config
  let client ← okOr (connect config) .failedToCreateClient
  -- The prefix is the client's: the anchor's is not asked for.
  let nextRequest ← okOr (pop queuePrefix client) .failedToDecode
  match nextRequest with
  | none => return none
  | some raw =>
    -- Bytes that follow the request are ignored.
    let (req, _) ← okOr (decode (α := Req) raw) .failedToDecode
    return some req

/-! ## Answers -/

abbrev AccountId := FixedBytes 32

/-- `RequestRecord`. -/
structure RequestRecord where
  requestId : FixedBytes 32
  url : Bytes
  path : Bytes

/-- `ResponseRecord`. -/
structure ResponseRecord where
  owner : AccountId
  contractId : AccountId
  requestId : FixedBytes 32
  data : Bytes
  timestampMs : UInt64

/-- The derived codec: the fields in order. -/
instance : Codec ResponseRecord where
  encode r := encode (r.owner, r.contractId, r.requestId, r.data, r.timestampMs)
  decode bs := (decode bs).map fun ((owner, contractId, requestId, data, timestampMs), rest) =>
    (⟨owner, contractId, requestId, data, timestampMs⟩, rest)

/-- The response that `feed_request` builds. The price is not fetched yet: it is `u128::MAX`. -/
def response (owner contractId : AccountId) (blockTimestamp : UInt64) (request : RequestRecord) :
    ResponseRecord where
  owner := owner
  contractId := contractId
  requestId := request.requestId
  data := writeLE 16 (2 ^ 128 - 1)
  timestampMs := blockTimestamp

/-- Feeds a price by a rollup transaction, and returns its id. `commit` gets the bytes that
    are attached as `Action::Reply`. -/
def feedRequest {Submittable : Type} (connect : Config → Option Anchor.Store)
    (commit : Anchor.Store → Bytes → Option (Option Submittable))
    (submit : Submittable → FixedBytes 32 → Option Bytes) (config : Option Config)
    (owner contractId : AccountId) (blockTimestamp : UInt64) (request : RequestRecord) :
    Exec Error (Option Bytes) := do
  let config ← ensureConfigured config
  let client ← okOr (connect config) .failedToCreateClient
  let maybeSubmittable ←
    okOr (commit client (encode (response owner contractId blockTimestamp request)))
      .failedToCommitTx
  match maybeSubmittable with
  | some submittable => do
    let txId ← okOr (submit submittable config.submitKey) .failedToSendTransaction
    return some txId
  | none => return none

end Paraxiom.PhatOracleFeed
