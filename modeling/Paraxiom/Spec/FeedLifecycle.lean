import Paraxiom.Spec.OracleProvenance

/-!
# The life cycle of a feed

`ApiFeed::status` is documented to start as `Registered` and to become `Active` "when
rollup is established", and `request` insists on an active feed. No call of any pallet
writes `Active`, so from genesis no feed leaves `Registered`, no request is accepted and no
answer is ever filed.
-/

namespace Paraxiom.Runtime

open Scale KvStore Transactional

variable {cfg : Oracle.Config} {AccountId : Type}

/-- Every registered feed has the status it was registered with. -/
def AllRegistered (c : Chain cfg AccountId) : Prop :=
  ∀ who key feed, c.registry.apiFeeds who key = some feed → feed.status = .registered

/-- Nothing has been requested and nothing answered. -/
structure Unserved (c : Chain cfg AccountId) : Prop where
  registered : AllRegistered c
  feedRequests : ∀ requestId, c.oracle.feedRequests requestId = none
  feedData : ∀ who r, c.oracle.feedData who r = none

section Steps

variable [DecidableEq AccountId] [Codec AccountId]

/-- No call writes another status. -/
theorem allRegistered_step (c : Chain cfg AccountId) (o : Call cfg AccountId)
    (h : AllRegistered c) : AllRegistered (step apply c o) := by
  cases hres : apply o c with
  | error f => rw [step_of_error hres]; exact h
  | ok p =>
    obtain ⟨u, c'⟩ := p
    rw [step_of_ok hres]
    cases o with
    | claimName origin name => obtain ⟨_, _, rfl⟩ := apply_claimName_eq_ok.mp hres; exact h
    | rollup origin name tx nonce => obtain ⟨_, _, _, rfl⟩ := apply_rollup_eq_ok.mp hres; exact h
    | registerFeed origin key url path =>
      obtain ⟨registry, hregister, rfl⟩ := apply_registerFeed_eq_ok.mp hres
      obtain ⟨who, _, rfl⟩ := Registry.registerFeed_eq_ok.mp hregister
      -- the feed that is written is `Registered`, whatever was there
      intro who' key' feed hfeed
      by_cases hkey : who' = who ∧ key' = key
      · obtain ⟨rfl, rfl⟩ := hkey
        rw [← Option.some.inj ((Registry.setFeed_self c.registry who' key' _).symm.trans hfeed)]
      · exact h who' key' feed ((Registry.setFeed_of_ne c.registry _ hkey).symm.trans hfeed)
    | unregisterFeed origin key =>
      obtain ⟨registry, hunregister, rfl⟩ := apply_unregisterFeed_eq_ok.mp hres
      obtain ⟨who, _, _, _, rfl⟩ := Registry.unregisterFeed_eq_ok.mp hunregister
      intro who' key' feed hfeed
      by_cases hkey : who' = who ∧ key' = key
      · obtain ⟨rfl, rfl⟩ := hkey
        exact nomatch (Registry.setFeed_self c.registry who' key' none).symm.trans hfeed
      · exact h who' key' feed ((Registry.setFeed_of_ne c.registry _ hkey).symm.trans hfeed)
    | request origin key nonce => obtain ⟨_, _, _, rfl⟩ := apply_request_eq_ok.mp hres; exact h
    | feeds origin => obtain ⟨_, rfl⟩ := apply_feeds_eq_ok.mp hres; exact h
    | average origin => exact absurd hres apply_average_ne_ok
    | nextBlock => rw [apply_nextBlock_eq_ok.mp hres]; exact h

/-- No request is accepted while every feed is only registered. -/
theorem AllRegistered.issued_eq_none {c : Chain cfg AccountId} (h : AllRegistered c)
    (o : Call cfg AccountId) : issued (event apply c o) = none := by
  cases hissued : issued (event apply c o) with
  | none => rfl
  | some p =>
    obtain ⟨requestId, r⟩ := p
    obtain ⟨feed, hfeed, hactive, _⟩ := (issues_of_issued hissued).2.message
    exact nomatch hactive.symm.trans (h _ _ feed hfeed)

/-- So nothing is ever requested or answered. -/
theorem unserved_step (c : Chain cfg AccountId) (o : Call cfg AccountId) (h : Unserved c) :
    Unserved (step apply c o) := by
  refine ⟨allRegistered_step c o h.registered, fun requestId => ?_, fun who r => ?_⟩
  · rw [feedRequests_step (h.registered.issued_eq_none o)]
    exact h.feedRequests requestId
  · -- a filing would have resolved to a request on file
    have hstep := congrFun (feedData_step c o) (who, r)
    rcases writeAll_last_writer (filings (event apply c o)) (Function.uncurry c.oracle.feedData)
      (who, r) with ⟨_, _, _, hfilings, _⟩ | ⟨_, hkept⟩
    · obtain ⟨_, _, _, _, _, _, _, _, _, _, hresolve, _⟩ := filings_split hfilings
      obtain ⟨_, _, _, hrequest⟩ := resolve_eq_some.mp hresolve
      exact nomatch (h.feedRequests _).symm.trans hrequest
    · exact (hstep.trans hkept).trans (h.feedData who r)

/-- From genesis nothing is ever served: every feed stays registered, no request is on
    file, and no answer is. -/
theorem unserved_of_run (calls : List (Call cfg AccountId)) :
    Unserved (run apply (genesis : Chain cfg AccountId) calls) :=
  have hgenesis : Unserved (genesis : Chain cfg AccountId) :=
    ⟨fun _ _ _ h => (nomatch (show none = some _ from h)), fun _ => rfl, fun _ _ => rfl⟩
  run_invariant unserved_step hgenesis calls

/-- The life cycle of a feed: some calls make it active with its url and path, a request
    of the account for it is then accepted and queues its message, and after some more calls
    a rollup with a reply to that request's id is accepted and its answer filed. -/
def Served (who : AccountId) (key : Registry.RegistryFeedKey cfg.registry)
    (url : Registry.RegistryFeedUrl cfg.registry) (path : Registry.RegistryFeedPath cfg.registry) :
    Prop :=
  ∃ before nonce requestId r between submitter name tx rollupNonce raw record,
    let c₁ : Chain cfg AccountId := run apply genesis before
    let requested := event apply c₁ (.request (.signed who) key nonce)
    let answered := event apply (run apply requested.post between)
      (.rollup (.signed submitter) name tx rollupNonce)
    (∃ startedAt, c₁.registry.apiFeeds who key = some ⟨startedAt, url, path, .active⟩) ∧
    issued requested = some (requestId, r) ∧
    answered.result = .ok () ∧ raw ∈ tx.actions ∧
    resolve answered.pre.oracle.feedRequests raw = some (record, r) ∧
    record.requestId = requestId ∧
    answered.post.oracle.feedData submitter r = some record.responseData

/-- No feed can be served, whatever its account, key, url and path. -/
theorem never_served (who : AccountId) (key : Registry.RegistryFeedKey cfg.registry)
    (url : Registry.RegistryFeedUrl cfg.registry)
    (path : Registry.RegistryFeedPath cfg.registry) : ¬Served who key url path := by
  rintro ⟨before, nonce, requestId, r, _, _, _, _, _, _, _, _, hissued, _⟩
  rw [(unserved_of_run before).registered.issued_eq_none] at hissued
  exact nomatch hissued

end Steps

/-- Account 0 cannot have a feed with empty key, url and path served. -/
theorem registered_feed_not_served :
    ¬∀ (who : UInt32) (key : Registry.RegistryFeedKey Oracle.sampleConfig.registry)
        (url : Registry.RegistryFeedUrl Oracle.sampleConfig.registry)
        (path : Registry.RegistryFeedPath Oracle.sampleConfig.registry),
      Served who key url path := by
  intro h
  obtain ⟨before, _, _, _, _, _, _, _, _, _, _, ⟨_, hactive⟩, _⟩ :=
    h 0 ⟨[], by decide⟩ ⟨[], by decide⟩ ⟨[], by decide⟩
  exact nomatch (unserved_of_run before).registered 0 _ _ hactive

end Paraxiom.Runtime
