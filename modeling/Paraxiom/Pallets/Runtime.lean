import Paraxiom.Pallets.Oracle

/-!
# The chain

The registry, anchor and oracle pallets composed as in `runtime/paraxiom/src/lib.rs`: the
oracle pallet is the anchor's response handler. A `Call` is an extrinsic, or the start of
the next block.
-/

namespace Paraxiom.Runtime

open Scale

variable (cfg : Oracle.Config) (AccountId : Type)

/-- The storage of the three pallets, in the current block. -/
structure Chain where
  blockNumber : BlockNumber
  registry : Registry.State cfg.registry AccountId
  anchor : Anchor.State AccountId
  oracle : Oracle.State cfg AccountId

/-- The signed extrinsics of the three pallets, and the step to the next block. -/
inductive Call where
  | claimName (origin : Origin AccountId) (name : H256)
  | rollup (origin : Origin AccountId) (name : H256) (tx : Anchor.RollupTx) (nonce : U128)
  | registerFeed (origin : Origin AccountId) (key : Registry.RegistryFeedKey cfg.registry)
      (url : Registry.RegistryFeedUrl cfg.registry) (path : Registry.RegistryFeedPath cfg.registry)
  | unregisterFeed (origin : Origin AccountId) (key : Registry.RegistryFeedKey cfg.registry)
  | request (origin : Origin AccountId) (key : Registry.RegistryFeedKey cfg.registry)
      (nonce : U128)
  | feeds (origin : Origin AccountId)
  | average (origin : Origin AccountId)
  | nextBlock

variable {cfg AccountId}

/-- A chain with empty registry, anchor and oracle storage. -/
def genesis : Chain cfg AccountId := ⟨0, Registry.genesis, Anchor.genesis, Oracle.genesis⟩

variable [DecidableEq AccountId] [Codec AccountId]

/-- Dispatch one call. -/
def apply (call : Call cfg AccountId) (c : Chain cfg AccountId) :
    Exec DispatchError (Unit × Chain cfg AccountId) :=
  match call with
  | .claimName origin name => do
    let anchor ← Anchor.claimName origin name c.anchor
    return ((), { c with anchor })
  | .rollup origin name tx nonce => do
    let (anchor, oracle) ←
      Anchor.rollup cfg.anchor Oracle.onResponse origin name tx nonce (c.anchor, c.oracle)
    return ((), { c with anchor, oracle })
  | .registerFeed origin key url path => do
    let registry ← Registry.registerFeed c.blockNumber origin key url path c.registry
    return ((), { c with registry })
  | .unregisterFeed origin key => do
    let registry ← Registry.unregisterFeed origin key c.registry
    return ((), { c with registry })
  | .request origin key nonce => do
    let (anchor, oracle) ←
      -- A request reads the registry and does not write it.
      Oracle.request c.blockNumber c.registry origin key nonce (c.anchor, c.oracle)
    return ((), { c with anchor, oracle })
  | .feeds origin => do
    let oracle ← Oracle.feeds origin c.oracle
    return ((), { c with oracle })
  | .average origin => do
    let oracle ← Oracle.average origin c.oracle
    return ((), { c with oracle })
  | .nextBlock => return ((), { c with blockNumber := c.blockNumber + 1 })

end Paraxiom.Runtime
