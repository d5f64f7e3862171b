import Paraxiom.Pallets.Frame

/-!
# The off-chain rollup anchor

`pallets/offchain-rollup/src/anchor.rs` and `types.rs`. A name is claimed once by its
submitter and owns a key-value store. The submitter changes the store by rollup
transactions; other pallets push messages to a queue that lives in the same store under
the keys `QueuePrefix ++ _head`, `QueuePrefix ++ _tail` and `QueuePrefix ++ index`.

`Config::OnResponse` is a parameter: a handler over a state `R` of its own.
-/

namespace Paraxiom.Anchor

open Scale

abbrev ActionBytes := BoundedVec 256
abbrev KeyBytes := BoundedVec 128
abbrev ValueBytes := BoundedVec 2048

instance : LawfulCodec ActionBytes := BoundedVec.lawfulCodec (by decide)
instance : LawfulCodec ValueBytes := BoundedVec.lawfulCodec (by decide)

/-! ## Types -/

/-- `Cond`: the value that a key is expected to have. -/
inductive Cond where
  | eq (key : KeyBytes) (value : Option ValueBytes)
deriving DecidableEq

/-- `Action`: a reply for the oracle, or the new head of the queue. -/
inductive Action where
  | reply (data : ActionBytes)
  | setQueueHead (head : UInt32)
deriving DecidableEq

instance : Codec Action where
  encode
    | .reply data => 0 :: encode data
    | .setQueueHead head => 1 :: encode head
  -- The derived codec: a byte for the variant, then its field.
  decode
    | [] => none
    | index :: bs =>
      if index = 0 then (decode (α := ActionBytes) bs).map fun (data, rest) => (.reply data, rest)
      else if index = 1 then
        (decode (α := UInt32) bs).map fun (head, rest) => (.setQueueHead head, rest)
      else none

theorem decode_action_zero (bs : Bytes) : decode (α := Action) (0 :: bs) =
    (decode (α := ActionBytes) bs).map fun p => (.reply p.1, p.2) := rfl

theorem decode_action_one (bs : Bytes) : decode (α := Action) (1 :: bs) =
    (decode (α := UInt32) bs).map fun p => (.setQueueHead p.1, p.2) := rfl

instance : LawfulCodec Action where
  decode_encode_append act rest := by
    cases act with
    | reply data =>
      exact (decode_action_zero (encode data ++ rest)).trans (by rw [decode_encode_append]; rfl)
    | setQueueHead head =>
      exact (decode_action_one (encode head ++ rest)).trans (by rw [decode_encode_append]; rfl)

/-- `RollupTx`. -/
structure RollupTx where
  conds : List Cond
  actions : List ActionBytes
  updates : List (KeyBytes × Option ValueBytes)
deriving DecidableEq

/-- `Config`, with the order in which `SubmitterByNames` is enumerated: its storage keys
    are `Blake2_128Concat` hashes, which end in the name itself and so are injective. -/
structure Config where
  queuePrefix : Bytes
  queueCapacity : UInt32
  storageHash : H256 → Nat
  storageHash_injective : Function.Injective storageHash

/-- `QueuePrefix` of the runtime: `b"_queue/"`. -/
def runtimeQueuePrefix : Bytes := [0x5f, 0x71, 0x75, 0x65, 0x75, 0x65, 0x2f]

/-- The pallet as `runtime/paraxiom/src/lib.rs` configures it. -/
def runtimeConfig (storageHash : H256 → Nat) (inj : Function.Injective storageHash) : Config :=
  ⟨runtimeQueuePrefix, 128, storageHash, inj⟩

/-- The runtime's configuration with the name itself, read as a number, in place of its
    storage hash. -/
def sampleConfig : Config :=
  runtimeConfig (fun name => readLE name.toList) fun a b h => by
    obtain ⟨a, ha⟩ := a
    obtain ⟨b, hb⟩ := b
    have hab : a = b := readLE_inj (ha.trans hb.symm) h
    subst hab; rfl

/-- The name of a contract. -/
def sampleName : H256 := ⟨List.replicate 32 1, rfl⟩

/-- The pallet's events. -/
inductive Event (AccountId : Type) where
  | nameClaimed (submitter : AccountId) (name : H256)
  | rollupExecuted (submitter : AccountId) (name : H256) (nonce : U128)

/-- The store of a name. -/
abbrev Store := KeyBytes → Option ValueBytes

/-- The pallet's storage and the events it deposited. -/
structure State (AccountId : Type) where
  submitterByNames : StorageMap H256 AccountId
  states : H256 → Store
  events : List (Event AccountId)

/-- `Config::OnResponse`. -/
abbrev OnResponse (AccountId R : Type) :=
  H256 → AccountId → Bytes → R → Exec DispatchError R

/-- The default implementation, of the unit type. -/
def OnResponse.unit {AccountId : Type} : OnResponse AccountId Unit := fun _ _ _ r => .ok r

variable {AccountId R : Type} {ε : Type}

/-- Empty storage. -/
def genesis : State AccountId := ⟨∅, fun _ _ => none, []⟩

/-- `States::insert` (with a value) and `States::remove` (with none). -/
def State.setState (s : State AccountId) (name : H256) (key : KeyBytes)
    (value : Option ValueBytes) : State AccountId :=
  { s with states := Function.update s.states name (Function.update (s.states name) key value) }

/-! ## Queue helpers -/

/-- `b"_head"`. -/
def headIndex : FixedBytes 5 := ⟨[0x5f, 0x68, 0x65, 0x61, 0x64], rfl⟩

/-- `b"_tail"`. -/
def tailIndex : FixedBytes 5 := ⟨[0x5f, 0x74, 0x61, 0x69, 0x6c], rfl⟩

/-- The key of an entry of the queue; panics if the prefix is too long. -/
def queueKey {ι : Type} [Codec ι] (cfg : Config) (index : ι) : Exec ε KeyBytes :=
  expect (BoundedVec.tryFrom 128 (cfg.queuePrefix ++ encode index))
    "BUG: Failed to make the queue key, the prefix might be too long"

/-- Stores an entry of the queue. -/
def queueSet {ι : Type} [Codec ι] (cfg : Config) (name : H256) (index : ι) (data : ValueBytes)
    (s : State AccountId) : Exec ε (State AccountId) := do
  let key ← queueKey cfg index
  return s.setState name key (some data)

/-- An entry of the queue, if there is one. -/
def queueGet {ι : Type} [Codec ι] (cfg : Config) (name : H256) (index : ι)
    (s : State AccountId) : Exec ε (Option ValueBytes) := do
  let key ← queueKey cfg index
  return s.states name key

/-- Removes an entry of the queue. -/
def queueRemove {ι : Type} [Codec ι] (cfg : Config) (name : H256) (index : ι)
    (s : State AccountId) : Exec ε (State AccountId) := do
  let key ← queueKey cfg index
  return s.setState name key none

/-- The inner `none` is the decoding error: fewer than four bytes are stored. -/
def queueGetU32 (cfg : Config) (name : H256) (index : FixedBytes 5) (s : State AccountId) :
    Exec ε (Option UInt32) := do
  match ← queueGet cfg name index s with
  -- A key that was never written reads as zero.
  | none => return some 0
  -- Bytes after the first four are ignored.
  | some bytes => return (decode bytes.toList).map Prod.fst

/-- Stores the head or the tail. -/
def queueSetU32 (cfg : Config) (name : H256) (index : FixedBytes 5) (value : UInt32)
    (s : State AccountId) : Exec ε (State AccountId) := do
  let value ← expect (BoundedVec.tryFrom 2048 (encode value)) "BUG: Failed to encode u32"
  queueSet cfg name index value s

/-- The position of the message queue head element. -/
def queueHead (cfg : Config) (name : H256) (s : State AccountId) : Exec ε UInt32 := do
  expect (← queueGetU32 cfg name headIndex s) "BUG: Failed to decode queue head"

/-- The position of the message queue tail element. -/
def queueTail (cfg : Config) (name : H256) (s : State AccountId) : Exec ε UInt32 := do
  expect (← queueGetU32 cfg name tailIndex s) "BUG: Failed to decode queue tail"

/-- `u32::saturating_sub`. -/
def saturatingSub (a b : UInt32) : UInt32 := if a < b then 0 else a - b

/-- The number of elements in the queue. -/
def queueLen (cfg : Config) (name : H256) (s : State AccountId) : Exec ε UInt32 := do
  let tail ← queueTail cfg name s
  let head ← queueHead cfg name s
  return saturatingSub tail head

/-- The range `start..stop` of `u32`. -/
def rangeU32 (start stop : UInt32) : List UInt32 :=
  (List.range' start.toNat (stop.toNat - start.toNat)).map UInt32.ofNat

/-- Moves the head, and removes what it passes. -/
def queueHeadSet (cfg : Config) (name : H256) (index : UInt32) (s : State AccountId) :
    Exec DispatchError (State AccountId) := do
  let head ← queueHead cfg name s
  let tail ← queueTail cfg name s
  ensure (head ≤ index ∧ index ≤ tail) (.anchor .invalidQueueHead)
  -- `for i in head..index`: the consumed messages are deleted.
  let s ← (rangeU32 head index).foldlM (fun s i => queueRemove cfg name i s) s
  queueSetU32 cfg name headIndex index s

/-- Moves the tail. -/
def queueTailSet (cfg : Config) (name : H256) (index : UInt32) (s : State AccountId) :
    Exec ε (State AccountId) :=
  queueSetU32 cfg name tailIndex index s

/-- Pushes a message and returns its index. `end + 1` is release-build arithmetic on
    `u32`: it wraps. -/
def pushMessage (cfg : Config) (name : H256) (data : ValueBytes) (s : State AccountId) :
    Exec Error (UInt32 × State AccountId) := do
  ensure (s.submitterByNames.lookup name).isSome .nameNotExist
  -- `queue_len` decodes the tail and the head, and panics if either is no `u32`.
  ensure ((← queueLen cfg name s) < cfg.queueCapacity) .queueIsFull
  let tail ← queueTail cfg name s
  let s ← queueSet cfg name tail data s
  let s ← queueTailSet cfg name (tail + 1) s
  return (tail, s)

/-! ## Calls -/

section Calls

variable [DecidableEq AccountId]

/-- The caller owns the name. -/
def ensureNameOwner (name : H256) (caller : AccountId) (s : State AccountId) :
    Exec DispatchError Unit := do
  let owner ← okOr (s.submitterByNames.lookup name) (.anchor .nameNotExist)
  ensure (owner = caller) (.anchor .notOwner)

/-- Claims a name and assigns the caller as its owner. -/
def claimName (origin : Origin AccountId) (name : H256) (s : State AccountId) :
    Exec DispatchError (State AccountId) := do
  let who ← ensureSigned origin
  ensure (s.submitterByNames.lookup name = none) (.anchor .nameAlreadyClaimed)
  return { s with
    submitterByNames := s.submitterByNames.insert name who
    events := s.events ++ [.nameClaimed who name] }

/-- The condition loop of `rollup`. -/
def checkConds (name : H256) (s : State AccountId) : List Cond → Exec DispatchError Unit
  | [] => return ()
  | .eq key value :: conds => do
    ensure (s.states name key = value) (.anchor .condNotMet)
    checkConds name s conds

/-- The update loop of `rollup`. -/
def applyUpdates (name : H256) (updates : List (KeyBytes × Option ValueBytes))
    (s : State AccountId) : State AccountId :=
  updates.foldl (fun s u => s.setState name u.1 u.2) s

/-- The body of the action loop of `rollup`. -/
def execAction (cfg : Config) (onResponse : OnResponse AccountId R) (name : H256)
    (who : AccountId) (s : State AccountId × R) (raw : ActionBytes) :
    Exec DispatchError (State AccountId × R) := do
  -- Bytes that follow the action are ignored.
  let act ← okOr ((decode (α := Action) raw.toList).map Prod.fst) (.anchor .failedToDecodeAction)
  match act with
  | .reply data => return (s.1, ← onResponse name who data.toList s.2)
  | .setQueueHead head => return (← queueHeadSet cfg name head s.1, s.2)

/-- Triggers a rollup with an optional nonce. -/
def rollup (cfg : Config) (onResponse : OnResponse AccountId R) (origin : Origin AccountId)
    (name : H256) (tx : RollupTx) (nonce : U128) (s : State AccountId × R) :
    Exec DispatchError (State AccountId × R) := do
  let who ← ensureSigned origin
  ensureNameOwner name who s.1
  -- The conditions see the store as it was, the actions as the updates leave it.
  checkConds name s.1 tx.conds
  let (anchor, r) ← tx.actions.foldlM (execAction cfg onResponse name who)
    (applyUpdates name tx.updates s.1, s.2)
  return ({ anchor with events := anchor.events ++ [.rollupExecuted who name nonce] }, r)

/-! ## The pallet as a machine -/

/-- An operation on the pallet: its two extrinsics, and `push_message` called by another
    pallet. -/
inductive Op (AccountId : Type) where
  | claimName (origin : Origin AccountId) (name : H256)
  | rollup (origin : Origin AccountId) (name : H256) (tx : RollupTx) (nonce : U128)
  | pushMessage (name : H256) (data : ValueBytes)

/-- What an operation answers. -/
inductive Answer where
  | done
  | pushed (id : UInt32)
deriving DecidableEq

/-- Execute one operation. -/
def apply (cfg : Config) (onResponse : OnResponse AccountId R) (op : Op AccountId)
    (s : State AccountId × R) : Exec DispatchError (Answer × (State AccountId × R)) :=
  match op with
  | .claimName origin name => do return (.done, (← claimName origin name s.1, s.2))
  | .rollup origin name tx nonce => do
    return (.done, ← rollup cfg onResponse origin name tx nonce s)
  | .pushMessage name data => do
    let (id, anchor) ← Exec.mapErr .anchor (pushMessage cfg name data s.1)
    return (.pushed id, (anchor, s.2))

end Calls

end Paraxiom.Anchor
