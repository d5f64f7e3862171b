import Paraxiom.ForStd.Transactional
import Paraxiom.Phat.OracleFeed

/-!
# The set-up of the rollup

The storage of the contract of `phat/contracts/phat_oracle_feed/lib.rs`, the messages that its
owner changes it with, and `maybe_init_rollup`, which anybody may call and which claims the
contract's name on the target chain. Of the rollup client, a third-party crate, and of the
contract's host the set-up uses three functions, which are parameters.

Around the contract there are the chains behind its endpoints and the claims it has sent. A
claim is an extrinsic: it is executed later, in any order with the others, more than once or
never, and by then the contract may be configured for something else. An endpoint answers from
the state of one chain, which may be an old one. No more is relied on of the client than
`Client.Documented` says.
-/

namespace Paraxiom.PhatOracleFeed

open Scale

/-! ## The contract -/

/-- `PhatOracleFeed`. -/
structure Contract where
  owner : AccountId
  config : Option Config

/-- The constructor. -/
def default (caller : AccountId) : Contract := ⟨caller, none⟩

/-- `BadOrigin` if the caller is not the owner. -/
def ensureOwner (caller : AccountId) (self : Contract) : Exec Error Unit :=
  ensure (caller = self.owner) .badOrigin

/-- `<[u8; 32]>::try_from` of a vector. -/
def keyOfBytes (bytes : Bytes) : Option (FixedBytes 32) :=
  if h : bytes.length = 32 then some ⟨bytes, h⟩ else none

/-- Configures the rollup target (admin only). -/
def config (caller : AccountId) (rpc : String) (palletId : UInt8) (submitKey : Bytes)
    (self : Contract) : Exec Error Contract := do
  ensureOwner caller self
  let submitKey ← okOr (keyOfBytes submitKey) .invalidKeyLength
  return { self with config := some ⟨rpc, palletId, submitKey⟩ }

/-- Transfers the ownership of the contract (admin only). -/
def transferOwnership (caller newOwner : AccountId) (self : Contract) : Exec Error Contract := do
  ensureOwner caller self
  return { self with owner := newOwner }

/-- What the set-up uses of the client and the host: `get_name_owner` and `claim_name`, which
    may fail, and `get_public_key`. What the contract sends goes into a state `W`. -/
structure Client (W : Type) where
  getNameOwner : String → H256 → W → Option (Option AccountId)
  claimName : String → UInt8 → H256 → FixedBytes 32 → W → Option Bytes × W
  getPublicKey : FixedBytes 32 → Bytes

/-- Initializes the rollup on the target chain if it is not done yet: none if the name is
    claimed by the `submit_key`, else the hash of the claim that was sent. -/
def maybeInitRollup {W : Type} (client : Client W) (contractId : H256) (self : Contract) (w : W) :
    Exec Error (Option Bytes) × W :=
  match self.config with
  | none => (.error (.err .notConfigured), w)
  | some config =>
    match client.getNameOwner config.rpc contractId w with
    | none => (.error (.err .failedToGetNameOwner), w)
    | some (some owner) =>
      if encode owner = client.getPublicKey config.submitKey then (.ok none, w)
      else (.error (.err .rollupConfiguredByAnotherAccount), w)
    | some none =>
      -- The client may report a failure and the claim still be on its way.
      let (txHash, w) :=
        client.claimName config.rpc config.palletId contractId config.submitKey w
      ((okOr txHash .failedToClaimName).map some, w)

/-! ## The world around -/

/-- A claim of a name: a call of the pallet with this index, signed with this key. -/
structure Claim where
  rpc : String
  palletId : UInt8
  name : H256
  submitKey : FixedBytes 32

/-- The contract's id, the chains behind the endpoints, the index of the anchor on each of them,
    the account that a key signs for, and the anchor that the chains run. -/
structure Setting (ChainId R : Type) where
  contractId : H256
  chainOf : String → ChainId
  anchorIndex : ChainId → UInt8
  publicKey : FixedBytes 32 → AccountId
  anchor : Anchor.Config
  onResponse : Anchor.OnResponse AccountId R
  responses : R

/-- The contract, what each chain has executed on its anchor, oldest first, and the claims that
    the contract has sent. -/
structure World (ChainId : Type) where
  contract : Contract
  chains : ChainId → List (Anchor.Op AccountId)
  sent : List Claim

variable {ChainId R : Type}

/-- A contract just deployed, when no chain has executed anything. -/
def World.deployed (deployer : AccountId) : World ChainId := ⟨default deployer, fun _ => [], []⟩

/-- The owner of a name on a chain that has executed the operations. -/
def Setting.nameOwner (env : Setting ChainId R) (name : H256) (ops : List (Anchor.Op AccountId)) :
    Option AccountId :=
  (Transactional.run (Anchor.apply env.anchor env.onResponse) (Anchor.genesis, env.responses)
    ops).1.submitterByNames.lookup name

/-- What the contract relies on of the client and the host. -/
structure Client.Documented (env : Setting ChainId R) (client : Client (World ChainId)) :
    Prop where
  /-- An owner of a name is read from the chain behind the endpoint, at some height of it. -/
  getNameOwner_eq_some : ∀ rpc name w owner, client.getNameOwner rpc name w = some owner →
    ∃ height, owner = env.nameOwner name ((w.chains (env.chainOf rpc)).take height)
  /-- A claim is sent as it was asked for, or it is lost, whatever is reported of it. -/
  claimName_snd : ∀ rpc palletId name submitKey w,
    let w' := (client.claimName rpc palletId name submitKey w).2
    w' = w ∨ w' = { w with sent := w.sent ++ [⟨rpc, palletId, name, submitKey⟩] }
  /-- The public key is the account that the key signs for. -/
  getPublicKey_eq : ∀ submitKey, client.getPublicKey submitKey = encode (env.publicKey submitKey)

/-- The messages of the contract, each set-up with the client that it meets, a claim that
    arrives, or an operation on the anchor of a chain that has nothing to do with the
    contract. -/
inductive Op (ChainId : Type) where
  | config (caller : AccountId) (rpc : String) (palletId : UInt8) (submitKey : Bytes)
  | transferOwnership (caller newOwner : AccountId)
  | maybeInitRollup (client : Client (World ChainId))
  | deliver (index : Nat)
  | elsewhere (chain : ChainId) (op : Anchor.Op AccountId)

/-- The operation meets a client that behaves as documented, if it meets one. -/
def Op.Documented (env : Setting ChainId R) (op : Op ChainId) : Prop :=
  ∀ client, op = .maybeInitRollup client → client.Documented env

section World

variable [DecidableEq ChainId]

/-- A chain executes one more operation. -/
def World.execute (w : World ChainId) (chain : ChainId) (op : Anchor.Op AccountId) :
    World ChainId :=
  { w with chains := Function.update w.chains chain (w.chains chain ++ [op]) }

/-- A claim arrives at its chain. -/
def Setting.deliver (env : Setting ChainId R) (claim : Claim) (w : World ChainId) :
    World ChainId :=
  let chain := env.chainOf claim.rpc
  -- Under another index there is another pallet, or none.
  if claim.palletId = env.anchorIndex chain then
    w.execute chain (.claimName (.signed (env.publicKey claim.submitKey)) claim.name)
  else w

/-- A message that changes the contract, or fails. -/
def World.update (w : World ChainId) (result : Exec Error Contract) :
    Exec Error (Option Bytes) × World ChainId :=
  match result with
  | .ok contract => (.ok none, { w with contract })
  | .error e => (.error e, w)

/-- The answer of one operation and the world after it. -/
def Setting.dispatch (env : Setting ChainId R) (op : Op ChainId) (w : World ChainId) :
    Exec Error (Option Bytes) × World ChainId :=
  match op with
  | .config caller rpc palletId submitKey =>
    w.update (config caller rpc palletId submitKey w.contract)
  | .transferOwnership caller newOwner => w.update (transferOwnership caller newOwner w.contract)
  | .maybeInitRollup client => maybeInitRollup client env.contractId w.contract w
  | .deliver index => (.ok none, (w.sent[index]?).elim w (env.deliver · w))
  | .elsewhere chain op => (.ok none, w.execute chain op)

/-- Execute one operation. The answer of a message may be an error; what it has sent is sent. -/
def Setting.apply (env : Setting ChainId R) (op : Op ChainId) (w : World ChainId) :
    Except Empty (Exec Error (Option Bytes) × World ChainId) := .ok (env.dispatch op w)

end World

end Paraxiom.PhatOracleFeed
