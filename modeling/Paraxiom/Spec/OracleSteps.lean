import Paraxiom.Pallets.Runtime
import Paraxiom.Spec.AnchorSteps

/-!
# What the oracle's functions and the chain's calls do

One lemma per function of the registry and oracle pallets, as the guards that let it
succeed and its effect, and one per call of the chain.

## Key results

- `request_eq_ok`, `onResponse_eq_ok`: what a request and an answer that succeed did
- `Runtime.apply_rollup_eq_ok`, `Runtime.apply_request_eq_ok`: their effect on the chain
- `Runtime.apply_eq_ok_cases`: what a call of the chain may do to the anchor and the oracle
- `noPanic_onResponse`, `noPanic_request`: neither panics when the anchor does not
-/

namespace Paraxiom

open Scale

namespace Registry

variable {cfg : Config} {AccountId : Type} [DecidableEq AccountId]

/-- What is set is found. -/
@[simp] theorem setFeed_self (s : State cfg AccountId) (who : AccountId)
    (key : RegistryFeedKey cfg) (feed : Option (ApiFeed cfg)) :
    (s.setFeed who key feed).apiFeeds who key = feed := by
  simp [State.setFeed]

/-- A feed of another account, or under another key, is left. -/
theorem setFeed_of_ne (s : State cfg AccountId) {who who' : AccountId}
    {key key' : RegistryFeedKey cfg} (feed : Option (ApiFeed cfg))
    (h : ¬(who' = who ∧ key' = key)) :
    (s.setFeed who key feed).apiFeeds who' key' = s.apiFeeds who' key' := by
  unfold State.setFeed
  by_cases hwho : who' = who
  · subst hwho
    simp [show key' ≠ key from fun hkey => h ⟨rfl, hkey⟩]
  · simp [hwho]

/-- Registering only asks for a signature, and overwrites. -/
theorem registerFeed_eq_ok {block : BlockNumber} {origin : Origin AccountId}
    {key : RegistryFeedKey cfg} {url : RegistryFeedUrl cfg} {path : RegistryFeedPath cfg}
    {s s' : State cfg AccountId} :
    registerFeed block origin key url path s = .ok s' ↔ ∃ who, origin = .signed who ∧
      s' = { s.setFeed who key (some ⟨block, url, path, .registered⟩) with
        events := s.events ++ [.feedRegistered who key ⟨block, url, path, .registered⟩] } := by
  unfold registerFeed
  simp only [Exec.bind_eq_ok, ensureSigned_eq_ok, Exec.pure_eq_ok, eq_comm (a := s')]

/-- Unregistering finds a feed of the caller under the key. -/
theorem unregisterFeed_eq_ok {origin : Origin AccountId} {key : RegistryFeedKey cfg}
    {s s' : State cfg AccountId} :
    unregisterFeed origin key s = .ok s' ↔ ∃ who feed, origin = .signed who ∧
      s.apiFeeds who key = some feed ∧ s' = { s.setFeed who key none with
        events := s.events ++ [.feedUnregistered who key feed] } := by
  unfold unregisterFeed
  simp only [Exec.bind_eq_ok, ensureSigned_eq_ok]
  constructor
  · rintro ⟨who, horigin, h⟩
    split at h
    · rename_i feed hfeed
      exact ⟨who, feed, horigin, hfeed, (Exec.pure_eq_ok.mp h).symm⟩
    · exact nomatch h
  · -- what is found is removed
    rintro ⟨who, feed, horigin, hfeed, rfl⟩
    exact ⟨who, horigin, by rw [hfeed]; rfl⟩

end Registry

namespace Oracle

variable {cfg : Config} {AccountId : Type}

/-! ## Requests -/

/-- The message that a request for a feed sends under an id. -/
def requestMessage (requestId : RequestId) (feed : Registry.ApiFeed cfg.registry) : Bytes :=
  encode (requestId, feed.url, feed.path)

/-- A request that succeeds found an active feed and a queue, filed the request under the
    id it drew, and pushed its data. -/
theorem request_eq_ok {block : BlockNumber} {registry : Registry.State cfg.registry AccountId}
    {origin : Origin AccountId} {key : Registry.RegistryFeedKey cfg.registry} {nonce : U128}
    {s s' : Anchor.State AccountId × State cfg AccountId} :
    request block registry origin key nonce s = .ok s' ↔
      ∃ who feed data name id, origin = .signed who ∧ registry.apiFeeds who key = some feed ∧
        feed.status = .active ∧
        BoundedVec.tryFrom 2048 (requestMessage (drawRequestId cfg block nonce) feed) = some data ∧
        selectName cfg s.1 = some name ∧
        Anchor.pushMessage cfg.anchor name data s.1 = .ok (id, s'.1) ∧
        s'.2 = { s.2.insertRequest (drawRequestId cfg block nonce) ⟨key, who, nonce, data⟩ with
          events := s.2.events ++ [.oracleRequest who (drawRequestId cfg block nonce) key] } := by
  obtain ⟨anchor', oracle'⟩ := s'
  -- both sides list the guards in the order of the code, the effects last
  unfold request
  simp only [Exec.bind_eq_ok, ensureSigned_eq_ok, okOr_eq_ok, ensure_eq_ok, Exec.mapErr_eq_ok,
    Exec.pure_eq_ok, Registry.ApiFeedStatus.isActive, decide_eq_true_eq, Prod.mk.injEq]
  constructor
  · rintro ⟨who, horigin, feed, hfeed, _, hactive, data, hdata, name, hname, ⟨id, anchor⟩, hpush,
      rfl, rfl⟩
    exact ⟨who, feed, data, name, id, horigin, hfeed, hactive, hdata, hname, hpush, rfl⟩
  · rintro ⟨who, feed, data, name, id, horigin, hfeed, hactive, hdata, hname, hpush, rfl⟩
    exact ⟨who, horigin, feed, hfeed, (), hactive, data, hdata, name, hname, (id, anchor'), hpush,
      rfl, rfl⟩

/-- A request pushes a message, and panics only if this does. -/
theorem noPanic_request {block : BlockNumber} {registry : Registry.State cfg.registry AccountId}
    {origin : Origin AccountId} {key : Registry.RegistryFeedKey cfg.registry} {nonce : U128}
    {s : Anchor.State AccountId × State cfg AccountId}
    (h : ∀ name data, (Anchor.pushMessage cfg.anchor name data s.1).NoPanic) :
    (request block registry origin key nonce s).NoPanic := by
  -- all guards before the push are errors
  refine Exec.noPanic_bind (noPanic_ensureSigned _) fun _ _ =>
    Exec.noPanic_bind (noPanic_okOr _ _) fun _ _ => Exec.noPanic_bind (noPanic_ensure _ _)
      fun _ _ => Exec.noPanic_bind (noPanic_okOr _ _) fun _ _ =>
        Exec.noPanic_bind (noPanic_okOr _ _) fun _ _ => ?_
  exact Exec.noPanic_bind (Exec.noPanic_mapErr (h _ _)) fun _ _ => Exec.noPanic_ok _

/-! ## Answers -/

section Answers

variable [DecidableEq AccountId]

/-- What is filed is found. -/
@[simp] theorem insertData_self (s : State cfg AccountId) (submitter : AccountId)
    (request : Request cfg AccountId) (data : ResponseData) :
    (s.insertData submitter request data).feedData submitter request = some data := by
  simp [State.insertData]

/-- The answers of other accounts, and to other requests, are left. -/
theorem insertData_of_ne (s : State cfg AccountId) {submitter submitter' : AccountId}
    {request request' : Request cfg AccountId} (data : ResponseData)
    (h : ¬(submitter' = submitter ∧ request' = request)) :
    (s.insertData submitter request data).feedData submitter' request' =
      s.feedData submitter' request' := by
  unfold State.insertData
  by_cases hs : submitter' = submitter
  · subst hs
    simp [show request' ≠ request from fun hr => h ⟨rfl, hr⟩]
  · simp [hs]

variable [Codec AccountId]

/-- The record that a reply carries. -/
abbrev decodeRecord {AccountId : Type} [Codec AccountId] (data : Bytes) :
    Option (ResponseRecord AccountId) :=
  (decode (α := ResponseRecord AccountId) data).map Prod.fst

/-- An answer that is accepted names the queue it comes from and a known request. -/
theorem onResponse_eq_ok {name : H256} {submitter : AccountId} {data : Bytes}
    {s s' : State cfg AccountId} :
    onResponse name submitter data s = .ok s' ↔
      ∃ (record : ResponseRecord AccountId) (request : Request cfg AccountId),
        decodeRecord data = some record ∧ record.phatContractId = name ∧
        s.feedRequests record.requestId = some request ∧
        s' = { s.insertData submitter request record.responseData with
          events := s.events ++ [.responseRecordReceived submitter name record.requestId
            record.responseData record.timestampMs] } := by
  unfold onResponse
  simp only [Exec.bind_eq_ok, okOr_eq_ok, ensure_eq_ok, Exec.pure_eq_ok]
  constructor
  · rintro ⟨record, hrecord, _, hname, request, hrequest, rfl⟩
    exact ⟨record, request, hrecord, hname, hrequest, rfl⟩
  · rintro ⟨record, request, hrecord, hname, hrequest, rfl⟩
    exact ⟨record, hrecord, (), hname, request, hrequest, rfl⟩

/-- An answer that is wrong in any way is an error. -/
theorem noPanic_onResponse (name : H256) (submitter : AccountId) (data : Bytes)
    (s : State cfg AccountId) : (onResponse name submitter data s).NoPanic :=
  Exec.noPanic_bind (noPanic_okOr _ _) fun _ _ => Exec.noPanic_bind (noPanic_ensure _ _)
    fun _ _ => Exec.noPanic_bind (noPanic_okOr _ _) fun _ _ => Exec.noPanic_ok _

end Answers

end Oracle

/-! ## Calls of the chain -/

namespace Runtime

variable {cfg : Oracle.Config} {AccountId : Type} [DecidableEq AccountId] [Codec AccountId]
  {c c' : Chain cfg AccountId} {u : Unit}

/-- A claim changes the anchor alone. -/
theorem apply_claimName_eq_ok {origin : Origin AccountId} {name : H256} :
    apply (.claimName origin name) c = .ok (u, c') ↔ ∃ anchor,
      Anchor.claimName origin name c.anchor = .ok anchor ∧ c' = { c with anchor } := by
  simp only [apply, Exec.bind_eq_ok, Exec.pure_eq_ok, Prod.mk.injEq, eq_self, true_and,
    eq_comm (a := c')]

/-- A rollup changes the anchor, and the oracle by its replies. -/
theorem apply_rollup_eq_ok {origin : Origin AccountId} {name : H256} {tx : Anchor.RollupTx}
    {nonce : U128} :
    apply (.rollup origin name tx nonce) c = .ok (u, c') ↔ ∃ anchor oracle,
      Anchor.rollup cfg.anchor Oracle.onResponse origin name tx nonce (c.anchor, c.oracle) =
        .ok (anchor, oracle) ∧ c' = { c with anchor, oracle } := by
  simp only [apply, Exec.bind_eq_ok, Exec.pure_eq_ok, Prod.mk.injEq, eq_self, true_and,
    Prod.exists, eq_comm (a := c')]

/-- A registration changes the registry alone. -/
theorem apply_registerFeed_eq_ok {origin : Origin AccountId}
    {key : Registry.RegistryFeedKey cfg.registry} {url : Registry.RegistryFeedUrl cfg.registry}
    {path : Registry.RegistryFeedPath cfg.registry} :
    apply (.registerFeed origin key url path) c = .ok (u, c') ↔ ∃ registry,
      Registry.registerFeed c.blockNumber origin key url path c.registry = .ok registry ∧
        c' = { c with registry } := by
  simp only [apply, Exec.bind_eq_ok, Exec.pure_eq_ok, Prod.mk.injEq, eq_self, true_and,
    eq_comm (a := c')]

/-- And so does its removal. -/
theorem apply_unregisterFeed_eq_ok {origin : Origin AccountId}
    {key : Registry.RegistryFeedKey cfg.registry} :
    apply (.unregisterFeed origin key) c = .ok (u, c') ↔ ∃ registry,
      Registry.unregisterFeed origin key c.registry = .ok registry ∧ c' = { c with registry } := by
  simp only [apply, Exec.bind_eq_ok, Exec.pure_eq_ok, Prod.mk.injEq, eq_self, true_and,
    eq_comm (a := c')]

/-- A request reads the registry, files itself with the oracle and pushes to the anchor. -/
theorem apply_request_eq_ok {origin : Origin AccountId}
    {key : Registry.RegistryFeedKey cfg.registry} {nonce : U128} :
    apply (.request origin key nonce) c = .ok (u, c') ↔ ∃ anchor oracle,
      Oracle.request c.blockNumber c.registry origin key nonce (c.anchor, c.oracle) =
        .ok (anchor, oracle) ∧ c' = { c with anchor, oracle } := by
  simp only [apply, Exec.bind_eq_ok, Exec.pure_eq_ok, Prod.mk.injEq, eq_self, true_and,
    Prod.exists, eq_comm (a := c')]

/-- `feeds` is a stub: it asks for a signature and changes nothing. -/
theorem apply_feeds_eq_ok {origin : Origin AccountId} :
    apply (.feeds origin) c = .ok (u, c') ↔ (∃ who, origin = .signed who) ∧ c' = c := by
  simp only [apply, Oracle.feeds, Exec.bind_eq_ok, Exec.pure_eq_ok, ensureSigned_eq_ok,
    Prod.mk.injEq, true_and]
  constructor
  · rintro ⟨_, ⟨who, horigin, rfl⟩, rfl⟩
    exact ⟨⟨who, horigin⟩, rfl⟩
  · rintro ⟨⟨who, horigin⟩, rfl⟩
    exact ⟨c'.oracle, ⟨who, horigin, rfl⟩, rfl⟩

/-- `average` never succeeds: a signed call comes to a `todo!`. -/
theorem apply_average_ne_ok {origin : Origin AccountId} :
    apply (.average origin) c ≠ .ok (u, c') := by
  intro h
  obtain ⟨oracle, h, _⟩ := Exec.bind_eq_ok.mp h
  obtain ⟨_, _, h⟩ := Exec.bind_eq_ok.mp h
  exact nomatch h

/-- A block ends. -/
theorem apply_nextBlock_eq_ok :
    apply .nextBlock c = .ok (u, c') ↔ c' = { c with blockNumber := c.blockNumber + 1 } := by
  simp only [apply, Exec.pure_eq_ok, Prod.mk.injEq, eq_self, true_and,
    eq_comm (a := c')]

/-- The call is none of those that write the storage of the anchor or of the oracle. -/
def Call.IsElsewhere : Call cfg AccountId → Prop
  | .claimName _ _ | .rollup _ _ _ _ | .request _ _ _ => False
  | _ => True

/-- What a call that succeeds did to the anchor and the oracle: it claimed a name, executed a
    rollup, filed a request, or left both as they were. -/
theorem apply_eq_ok_cases {call : Call cfg AccountId} (h : apply call c = .ok (u, c')) :
    (∃ origin name anchor, call = .claimName origin name ∧
      Anchor.claimName origin name c.anchor = .ok anchor ∧ c' = { c with anchor }) ∨
    (∃ origin name tx nonce anchor oracle, call = .rollup origin name tx nonce ∧
      Anchor.rollup cfg.anchor Oracle.onResponse origin name tx nonce (c.anchor, c.oracle) =
        .ok (anchor, oracle) ∧ c' = { c with anchor, oracle }) ∨
    (∃ origin key nonce anchor oracle, call = .request origin key nonce ∧
      Oracle.request c.blockNumber c.registry origin key nonce (c.anchor, c.oracle) =
        .ok (anchor, oracle) ∧ c' = { c with anchor, oracle }) ∨
    call.IsElsewhere ∧ c'.anchor = c.anchor ∧ c'.oracle = c.oracle ∧
      c.blockNumber ≤ c'.blockNumber := by
  -- the calls of the registry and the stubs are elsewhere
  cases call with
  | claimName origin name =>
    obtain ⟨anchor, hok, hc'⟩ := apply_claimName_eq_ok.mp h
    exact .inl ⟨origin, name, anchor, rfl, hok, hc'⟩
  | rollup origin name tx nonce =>
    obtain ⟨anchor, oracle, hok, hc'⟩ := apply_rollup_eq_ok.mp h
    exact .inr (.inl ⟨origin, name, tx, nonce, anchor, oracle, rfl, hok, hc'⟩)
  | request origin key nonce =>
    obtain ⟨anchor, oracle, hok, hc'⟩ := apply_request_eq_ok.mp h
    exact .inr (.inr (.inl ⟨origin, key, nonce, anchor, oracle, rfl, hok, hc'⟩))
  | registerFeed origin key url path =>
    obtain ⟨_, _, rfl⟩ := apply_registerFeed_eq_ok.mp h
    exact .inr (.inr (.inr ⟨trivial, rfl, rfl, Nat.le_refl _⟩))
  | unregisterFeed origin key =>
    obtain ⟨_, _, rfl⟩ := apply_unregisterFeed_eq_ok.mp h
    exact .inr (.inr (.inr ⟨trivial, rfl, rfl, Nat.le_refl _⟩))
  | feeds origin =>
    obtain ⟨_, rfl⟩ := apply_feeds_eq_ok.mp h
    exact .inr (.inr (.inr ⟨trivial, rfl, rfl, Nat.le_refl _⟩))
  | average origin => exact absurd h apply_average_ne_ok
  | nextBlock =>
    rw [apply_nextBlock_eq_ok.mp h]
    exact .inr (.inr (.inr ⟨trivial, rfl, rfl, Nat.le_succ _⟩))

end Runtime

end Paraxiom
