import Paraxiom.ForStd.BoundedList
import Paraxiom.ForStd.ReservableCurrency
import Paraxiom.Pallets.Frame

/-!
# The collator selection pallet

`pallets/collator-selection/src/lib.rs`. The collators of a session are the invulnerables,
set by an update origin, and the candidates, who reserve a bond when they register and get
it back when they leave. The session manager kicks candidates that have not authored a block
for too long; the author of a block is paid from a pot.

The currency and the key registration of the session pallet are parameters. What the pallet
sees of them is part of its state; another pallet may change it at any time.
-/

namespace Paraxiom.CollatorSelection

/-! ## Types -/

/-- `Error`. -/
inductive Error where
  | tooManyCandidates
  | tooFewCandidates
  | unknown
  | permission
  | alreadyCandidate
  | notCandidate
  | tooManyInvulnerables
  | alreadyInvulnerable
  | noAssociatedValidatorId
  | validatorNotRegistered
deriving DecidableEq

/-- `Config`. `potAccount` is the account that `PotId` converts to. -/
structure Config (AccountId : Type) [DecidableEq AccountId] where
  currency : ReservableCurrency AccountId
  updateOrigin : Origin AccountId → Bool
  potAccount : AccountId
  maxCandidates : UInt32
  minCandidates : UInt32
  maxInvulnerables : UInt32
  kickThreshold : BlockNumber
  ValidatorId : Type
  validatorIdOf : AccountId → Option ValidatorId

/-- `CandidateInfo`. -/
structure CandidateInfo (AccountId : Type) where
  who : AccountId
  deposit : Nat
deriving DecidableEq

inductive Event (AccountId : Type) where
  | newInvulnerables (invulnerables : List AccountId)
  | newDesiredCandidates (desiredCandidates : UInt32)
  | newCandidacyBond (bondAmount : Nat)
  | candidateAdded (accountId : AccountId) (deposit : Nat)
  | candidateRemoved (accountId : AccountId)
deriving DecidableEq

variable {AccountId : Type} [DecidableEq AccountId]

/-- `DispatchError`, as far as the calls of this pallet return it. -/
inductive DispatchError (cfg : Config AccountId) where
  | frame (error : Paraxiom.DispatchError)
  | collatorSelection (error : Error)
  | currency (error : cfg.currency.Error)

/-- The pallet's storage and the events it deposited, with the block, the balances and the
    registered session keys that it reads. -/
structure State (cfg : Config AccountId) where
  invulnerables : BoundedList AccountId cfg.maxInvulnerables.toNat
  candidates : BoundedList (CandidateInfo AccountId) cfg.maxCandidates.toNat
  lastAuthoredBlock : AccountId → BlockNumber
  desiredCandidates : UInt32
  candidacyBond : Nat
  events : List (Event AccountId)
  blockNumber : BlockNumber
  balances : cfg.currency.Balances
  isRegistered : cfg.ValidatorId → Bool

/-- `GenesisConfig`. -/
structure GenesisConfig (AccountId : Type) where
  invulnerables : List AccountId
  candidacyBond : Nat
  desiredCandidates : UInt32

variable {cfg : Config AccountId}

/-- `assert!(c, message)`. -/
def assert {ε : Type} (c : Prop) [Decidable c] (message : String) : Exec ε Unit :=
  if c then .ok () else .error (.panic message)

/-- `GenesisBuild::build`. -/
def GenesisConfig.build (self : GenesisConfig AccountId) (balances : cfg.currency.Balances)
    (isRegistered : cfg.ValidatorId → Bool) : Exec Error (State cfg) := do
  -- the length of the set of the invulnerables against that of the list
  assert (self.invulnerables.toFinset.card = self.invulnerables.length)
    "duplicate invulnerables in genesis."
  let boundedInvulnerables ← expect (BoundedList.tryFrom _ self.invulnerables)
    "genesis invulnerables are more than T::MaxInvulnerables"
  assert (cfg.maxCandidates ≥ self.desiredCandidates)
    "genesis desired_candidates are more than T::MaxCandidates"
  return {
    invulnerables := boundedInvulnerables
    candidates := .empty
    lastAuthoredBlock := fun _ => 0
    desiredCandidates := self.desiredCandidates
    candidacyBond := self.candidacyBond
    events := []
    blockNumber := 0
    balances
    isRegistered }

/-! ## Calls -/

/-- `ensure_signed`. -/
def ensureSigned (origin : Origin AccountId) : Exec (DispatchError cfg) AccountId :=
  Exec.mapErr .frame <| Paraxiom.ensureSigned origin

/-- `T::UpdateOrigin::ensure_origin`. -/
def ensureUpdateOrigin (origin : Origin AccountId) : Exec (DispatchError cfg) Unit :=
  ensure (cfg.updateOrigin origin) (.frame .badOrigin)

/-- The account has a validator id, and the session pallet has keys for it. -/
def ensureRegistered (accountId : AccountId) (s : State cfg) : Exec (DispatchError cfg) Unit := do
  let validatorKey ← okOr (cfg.validatorIdOf accountId)
    (.collatorSelection .noAssociatedValidatorId)
  ensure (s.isRegistered validatorKey) (.collatorSelection .validatorNotRegistered)

/-- Set the list of invulnerable (fixed) collators. -/
def setInvulnerables (origin : Origin AccountId) (new : List AccountId) (s : State cfg) :
    Exec (DispatchError cfg) (State cfg) := do
  ensureUpdateOrigin origin
  let boundedInvulnerables ← okOr (BoundedList.tryFrom cfg.maxInvulnerables.toNat new)
    (.collatorSelection .tooManyInvulnerables)
  -- neither repetitions nor candidates among the new invulnerables are looked for
  boundedInvulnerables.toList.forM fun accountId => ensureRegistered accountId s
  return { s with
    invulnerables := boundedInvulnerables
    events := s.events ++ [.newInvulnerables boundedInvulnerables.toList] }

/-- Set the ideal number of collators (not including the invulnerables). A number above
    `MaxCandidates` is logged and accepted. -/
def setDesiredCandidates (origin : Origin AccountId) (max : UInt32) (s : State cfg) :
    Exec (DispatchError cfg) (State cfg) := do
  ensureUpdateOrigin origin
  return { s with desiredCandidates := max, events := s.events ++ [.newDesiredCandidates max] }

/-- Set the candidacy bond amount. -/
def setCandidacyBond (origin : Origin AccountId) (bond : Nat) (s : State cfg) :
    Exec (DispatchError cfg) (State cfg) := do
  ensureUpdateOrigin origin
  return { s with candidacyBond := bond, events := s.events ++ [.newCandidacyBond bond] }

/-- Register the caller as a collator candidate. The number of candidates is returned: the
    weight of the call is computed from it. -/
def registerAsCandidate (origin : Origin AccountId) (s : State cfg) :
    Exec (DispatchError cfg) (Nat × State cfg) := do
  let who ← ensureSigned origin
  let length := s.candidates.length
  ensure (UInt32.ofNat length < s.desiredCandidates) (.collatorSelection .tooManyCandidates)
  ensure (who ∉ s.invulnerables.toList) (.collatorSelection .alreadyInvulnerable)
  ensureRegistered who s
  let deposit := s.candidacyBond
  let incoming : CandidateInfo AccountId := ⟨who, deposit⟩
  ensure (who ∉ s.candidates.toList.map (·.who)) (.collatorSelection .alreadyCandidate)
  let balances ← (cfg.currency.reserve who deposit s.balances).mapError fun e => .err (.currency e)
  let candidates ← okOr (s.candidates.tryPush incoming) (.collatorSelection .tooManyCandidates)
  -- The threshold is added to handle the session delay. From block 2^32 - `KickThreshold` on
  -- the sum would wrap in the `u32` of the runtime; here it does not.
  return (candidates.length, { s with
    candidates
    lastAuthoredBlock :=
      Function.update s.lastAuthoredBlock who (s.blockNumber + cfg.kickThreshold)
    events := s.events ++ [.candidateAdded who deposit]
    balances })

/-- Removes a candidate if they exist and sends them back their deposit. The number of
    candidates left is returned. -/
def tryRemoveCandidate (who : AccountId) (s : State cfg) :
    Exec (DispatchError cfg) (Nat × State cfg) := do
  let index ← okOr (s.candidates.toList.findIdx? fun candidate => candidate.who = who)
    (.collatorSelection .notCandidate)
  let (candidate, candidates) ← expect (s.candidates.remove index)
    "removal index should be < len"
  -- What `unreserve` could not move is returned by it and dropped here.
  return (candidates.length, { s with
    candidates
    lastAuthoredBlock := Function.update s.lastAuthoredBlock who 0
    events := s.events ++ [.candidateRemoved who]
    balances := cfg.currency.unreserve who candidate.deposit s.balances })

/-- Deregister the caller as a collator candidate. -/
def leaveIntent (origin : Origin AccountId) (s : State cfg) :
    Exec (DispatchError cfg) (Nat × State cfg) := do
  let who ← ensureSigned origin
  ensure (UInt32.ofNat s.candidates.length > cfg.minCandidates)
    (.collatorSelection .tooFewCandidates)
  tryRemoveCandidate who s

/-! ## The session manager -/

/-- The closure of the `filter_map` in `kick_stale_candidates`, for one candidate. -/
def kickCandidate (c : CandidateInfo AccountId) (s : State cfg) :
    Exec (DispatchError cfg) (Option AccountId × State cfg) :=
  let lastBlock := s.lastAuthoredBlock c.who
  -- `saturating_sub`
  let sinceLast := s.blockNumber - lastBlock
  -- The candidates are read anew for each of them.
  if sinceLast < cfg.kickThreshold ∨ UInt32.ofNat s.candidates.length ≤ cfg.minCandidates then
    .ok (some c.who, s)
  else
    match tryRemoveCandidate c.who s with
    | .ok (_, s') => .ok (none, s')
    -- A failure is logged; a debug build asserts that there is none.
    | .error (.err _) => .ok (none, s)
    | .error (.panic message) => .error (.panic message)

/-- The loop around it: what the candidate leaves joins the accounts kept so far. -/
def kickOrKeep (acc : List AccountId × State cfg) (c : CandidateInfo AccountId) :
    Exec (DispatchError cfg) (List AccountId × State cfg) := do
  let (who, s) ← kickCandidate c acc.2
  return (acc.1 ++ who.toList, s)

/-- Kicks out candidates that did not produce a block in the kick threshold and refunds
    their deposits. -/
def kickStaleCandidates (candidates : BoundedList (CandidateInfo AccountId) cfg.maxCandidates.toNat)
    (s : State cfg) :
    Exec (DispatchError cfg) (BoundedList AccountId cfg.maxCandidates.toNat × State cfg) := do
  let (kept, s) ← candidates.toList.foldlM kickOrKeep ([], s)
  let kept ← expect (BoundedList.tryFrom _ kept)
    "filter_map operation can't result in a bounded vec larger than its original; qed"
  return (kept, s)

/-- Assemble the current set of candidates and invulnerables into the next collator set. -/
def assembleCollators (candidates : BoundedList AccountId cfg.maxCandidates.toNat)
    (s : State cfg) : List AccountId :=
  s.invulnerables.toList ++ candidates.toList

/-- `SessionManager::new_session`. The session index is logged only. -/
def newSession (_index : UInt32) (s : State cfg) :
    Exec (DispatchError cfg) (Option (List AccountId) × State cfg) := do
  let candidates := s.candidates
  let (activeCandidates, s) ← kickStaleCandidates candidates s
  return (some (assembleCollators activeCandidates s), s)

/-- `EventHandler::note_author`. -/
def noteAuthor (author : AccountId) (s : State cfg) : State cfg :=
  let pot := cfg.potAccount
  -- Half of the pot without the existential deposit, or nothing if the pot is below it.
  let reward := (cfg.currency.freeBalance s.balances pot - cfg.currency.minimumBalance) / 2
  -- A failing transfer is ignored in a release build.
  let balances :=
    match cfg.currency.transfer pot author reward s.balances with
    | .ok balances => balances
    | .error _ => s.balances
  { s with
    balances
    lastAuthoredBlock := Function.update s.lastAuthoredBlock author s.blockNumber }

/-! ## The pallet as a machine -/

/-- The calls of the pallet, its hooks for authors and sessions, the start of the next block,
    and whatever the other pallets do to balances and session keys. -/
inductive Op (cfg : Config AccountId) where
  | setInvulnerables (origin : Origin AccountId) (new : List AccountId)
  | setDesiredCandidates (origin : Origin AccountId) (max : UInt32)
  | setCandidacyBond (origin : Origin AccountId) (bond : Nat)
  | registerAsCandidate (origin : Origin AccountId)
  | leaveIntent (origin : Origin AccountId)
  | noteAuthor (author : AccountId)
  | newSession (index : UInt32)
  | nextBlock
  | elsewhere (balances : cfg.currency.Balances) (isRegistered : cfg.ValidatorId → Bool)

/-- What an operation answers. -/
inductive Answer (AccountId : Type) where
  | done
  | count (candidates : Nat)
  | collators (collators : Option (List AccountId))
deriving DecidableEq

/-- Execute one operation. -/
def apply (op : Op cfg) (s : State cfg) :
    Exec (DispatchError cfg) (Answer AccountId × State cfg) :=
  match op with
  | .setInvulnerables origin new => do return (.done, ← setInvulnerables origin new s)
  | .setDesiredCandidates origin max => do return (.done, ← setDesiredCandidates origin max s)
  | .setCandidacyBond origin bond => do return (.done, ← setCandidacyBond origin bond s)
  | .registerAsCandidate origin => do
    let (count, s) ← registerAsCandidate origin s
    return (.count count, s)
  | .leaveIntent origin => do
    let (count, s) ← leaveIntent origin s
    return (.count count, s)
  | .noteAuthor author => .ok (.done, noteAuthor author s)
  | .newSession index => do
    let (collators, s) ← newSession index s
    return (.collators collators, s)
  | .nextBlock => .ok (.done, { s with blockNumber := s.blockNumber + 1 })
  | .elsewhere balances isRegistered => .ok (.done, { s with balances, isRegistered })

end Paraxiom.CollatorSelection
