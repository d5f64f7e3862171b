import Paraxiom.ForStd.EventLog
import Paraxiom.Spec.CollatorSteps
import Paraxiom.Spec.OracleSteps
import Paraxiom.Spec.WorkerSources

/-!
# Storage from events

An indexer sees the events of the pallets and not their storage. The events tell the whole story
of the feed endpoints and the raw values of the para-oracle, of the registry's feeds, of the
anchor's names and of the collators: replaying them gives what is stored, from any state on and
over any run. And they can be trusted on what they met: an event about something removed names
what was there, a rollup was executed for the owner, a candidate was added where there was room.

## Key results

- `ParaOracle.dispatch_recorded`, `Runtime.names_recorded`, `Runtime.feeds_recorded`,
  `CollatorSelection.accepted_recorded`: one step
- `ParaOracle.events_tell_storage`, `Runtime.events_tell_names_and_feeds`,
  `CollatorSelection.events_tell_roster`: all runs
-/

namespace Paraxiom

open Scale Transactional EventLog

/-- A map after an insertion, as a function. -/
theorem StorageMap.lookup_insert_eq_update {K V : Type} [DecidableEq K] (m : StorageMap K V)
    (key : K) (v : V) : (fun k => (m.insert key v).lookup k) =
      Function.update (fun k => m.lookup k) key (some v) := by
  funext k
  by_cases hk : k = key
  · subst hk
    rw [AList.lookup_insert, Function.update_self]
  · rw [AList.lookup_insert_ne hk, Function.update_of_ne hk]

/-- A map after a removal, as a function. -/
theorem StorageMap.lookup_erase_eq_update {K V : Type} [DecidableEq K] (m : StorageMap K V)
    (key : K) : (fun k => (m.erase key).lookup k) =
      Function.update (fun k => m.lookup k) key none := by
  funext k
  by_cases hk : k = key
  · subst hk
    rw [AList.lookup_erase, Function.update_self]
  · rw [AList.lookup_erase_ne hk, Function.update_of_ne hk]

/-! ## The para-oracle -/

namespace ParaOracle

open QuorumLog

variable {AccountId : Type} [DecidableEq AccountId] {cfg : Config AccountId}

/-- The endpoints, and the raw values without their times, which the events do not tell. -/
structure Indexed (cfg : Config AccountId) where
  apiFeeds : CreatorId AccountId × OracleKey cfg.strLimit → Option ApiFeed
  rawValues : CreatorId AccountId × OracleKey cfg.strLimit → Option Int

/-- What an observer of the pallet's events has a picture of. -/
def State.indexed (s : State cfg) : Indexed cfg where
  apiFeeds k := s.apiFeeds.lookup k
  rawValues k := (s.rawValues.lookup k).map (·.value)

/-- A feed overwrites the values of its sender, the last entry of a key counts, and a removal
    carries the feed that it removes. -/
def reading : Reading (Event cfg) (Indexed cfg) where
  met
    | .apiFeedRemoved sender key feed, t => t.apiFeeds (sender, key) = some feed
    | .newApiFeed _ _ _, _ | .newFeedData _ _, _ => True
  note
    | .newFeedData sender values, t =>
      { t with
        rawValues := fun k =>
          if sender = k.1 then (lastEntry values k.2).or (t.rawValues k) else t.rawValues k }
    | .newApiFeed sender key feed, t =>
      { t with apiFeeds := Function.update t.apiFeeds (sender, key) (some feed) }
    | .apiFeedRemoved sender key _, t =>
      { t with apiFeeds := Function.update t.apiFeeds (sender, key) none }

/-- The loop over the entries deposits nothing. -/
@[simp] theorem feedEntries_events (now : U128) (cid : CreatorId AccountId)
    (values : List (OracleKey cfg.strLimit × Int)) (s : State cfg) :
    (feedEntries now cid values s).events = s.events :=
  feedEntries_frame (f := State.events) (fun s entry => by
    unfold feedEntry
    dsimp only
    split <;> rfl) values

/-- The event of a feed carries the values as they were fed. -/
theorem feed_recorded {now : U128} {cid : CreatorId AccountId}
    {values : List (OracleKey cfg.strLimit × Int)} {s s' : State cfg}
    (h : feed now cid values s = .ok s') :
    Recorded reading s.events s.indexed s'.events s'.indexed := by
  rw [feed_eq] at h
  split_ifs at h
  obtain rfl := Except.ok.inj h
  -- the loop leaves the last entry of each key, as the observer takes it from the event
  have hindexed : State.indexed { feedEntries now cid values (s.markDispatched cid) with
      events := (feedEntries now cid values (s.markDispatched cid)).events ++
        [.newFeedData cid values] } = reading.note (.newFeedData cid values) s.indexed := by
    refine congrArg₂ Indexed.mk (funext fun k => ?_) (funext fun k => ?_)
    · rw [feedEntries_apiFeeds]
      rfl
    · obtain ⟨c, k⟩ := k
      show ((feedEntries now cid values (s.markDispatched cid)).rawValues.lookup (c, k)).map _ = _
      rw [lookup_feedEntries, lastEntry_stamped]
      dsimp only
      split_ifs
      · cases lastEntry values k <;> rfl
      · rfl
  rw [hindexed, feedEntries_events]
  exact .concat trivial

/-- The event of a submission carries the endpoint. -/
theorem doSubmitApi_recorded {block : BlockNumber} {cid : CreatorId AccountId}
    {key : OracleKey cfg.strLimit} {url vpath : Bytes} {s s' : State cfg}
    (h : doSubmitApi block cid key url vpath s = .ok s') :
    Recorded reading s.events s.indexed s'.events s'.indexed := by
  obtain rfl := Except.ok.inj h
  unfold State.indexed
  dsimp only
  rw [StorageMap.lookup_insert_eq_update]
  exact .concat (r := reading) (t := s.indexed) trivial

/-- The event of a removal carries the endpoint that was there. -/
theorem doRemoveApi_recorded {cid : CreatorId AccountId} {key : OracleKey cfg.strLimit}
    {s s' : State cfg} (h : doRemoveApi cid key s = .ok s') :
    Recorded reading s.events s.indexed s'.events s'.indexed := by
  unfold doRemoveApi at h
  dsimp only at h
  split at h
  · -- the endpoint is read before it is removed, and goes into the event
    obtain ⟨feed, hfeed, h⟩ := Exec.bind_eq_ok.mp h
    obtain rfl := Exec.pure_eq_ok.mp h
    unfold State.indexed
    dsimp only
    rw [StorageMap.lookup_erase_eq_update]
    exact .concat (r := reading) (t := s.indexed) (expect_eq_ok.mp hfeed)
  · cases h

/-- Every call records what it does, if it succeeds. -/
theorem dispatch_recorded {op : Op cfg} {s s' : State cfg} (h : dispatch op s = .ok s') :
    Recorded reading s.events s.indexed s'.events s'.indexed := by
  -- the calls of accounts and of parachains share their bodies
  cases op with
  | feedData | xcmFeedData =>
    obtain ⟨_, _, h⟩ := Exec.bind_eq_ok.mp h
    exact feed_recorded h
  | xcmQueryData origin key =>
    obtain ⟨_, _, h⟩ := Exec.bind_eq_ok.mp h
    split at h
    · obtain ⟨_, _, h⟩ := Exec.bind_eq_ok.mp h
      obtain rfl := Exec.pure_eq_ok.mp h
      exact .refl ..
    · cases h
  | submitApi | xcmSubmitApi =>
    obtain ⟨_, _, h⟩ := Exec.bind_eq_ok.mp h
    exact doSubmitApi_recorded h
  | removeApi | xcmRemoveApi =>
    obtain ⟨_, _, h⟩ := Exec.bind_eq_ok.mp h
    exact doRemoveApi_recorded h
  | onFinalize =>
    obtain rfl := Except.ok.inj h
    exact .refl ..

/-- Over any run from any state, the events deposited on the way tell how the endpoints and the
    raw values came to be what they are. -/
theorem events_tell_storage (s : State cfg) (ops : List (Op cfg)) :
    let s' := run apply s ops
    Recorded reading s.events s.indexed s'.events s'.indexed := by
  refine recorded_run State.events State.indexed (fun s op a s' h => ?_) s ops
  obtain ⟨s₁, hok, h⟩ := Exec.bind_eq_ok.mp h
  obtain ⟨_, rfl⟩ := Prod.mk.inj (Exec.pure_eq_ok.mp h)
  exact dispatch_recorded hok

end ParaOracle

/-! ## The anchor and the registry -/

namespace Anchor

variable {AccountId R : Type} {cfg : Config}

/-- Names are claimed when nobody has them, and rollups are executed for who has the name. -/
def nameReading : Reading (Event AccountId) (H256 → Option AccountId) where
  met
    | .nameClaimed _ name, owners => owners name = none
    | .rollupExecuted submitter name _, owners => owners name = some submitter
  note
    | .nameClaimed submitter name, owners => Function.update owners name (some submitter)
    | .rollupExecuted _ _ _, owners => owners

/-- Who owns which name. -/
def State.owners (s : State AccountId) (name : H256) : Option AccountId :=
  s.submitterByNames.lookup name

/-- A name is claimed when it is free. -/
theorem claimName_recorded {origin : Origin AccountId} {name : H256} {s s' : State AccountId}
    (h : claimName origin name s = .ok s') :
    Recorded nameReading s.events s.owners s'.events s'.owners := by
  obtain ⟨who, _, hnone, rfl⟩ := claimName_eq_ok.mp h
  have hinsert := StorageMap.lookup_insert_eq_update s.submitterByNames name who
  unfold State.owners
  dsimp only
  rw [hinsert]
  exact .concat (r := nameReading) (t := s.owners) hnone

/-- A rollup is executed for the owner of its name, and changes no owner. -/
theorem rollup_recorded [DecidableEq AccountId] {onResponse : OnResponse AccountId R}
    {origin : Origin AccountId} {name : H256} {tx : RollupTx} {nonce : U128}
    {s s' : State AccountId × R} (h : rollup cfg onResponse origin name tx nonce s = .ok s') :
    Recorded nameReading s.1.events s.1.owners s'.1.events s'.1.owners := by
  obtain ⟨who, _, howner, _, s₁, hloop, rfl⟩ := rollup_eq_ok.mp h
  -- neither the updates nor the actions touch owners or events
  obtain ⟨_, _, hnames, hevents⟩ := foldlM_execAction hloop
  rw [applyUpdates_submitterByNames] at hnames
  rw [applyUpdates_events] at hevents
  unfold State.owners
  dsimp only
  rw [hnames, hevents]
  exact .concat (r := nameReading) (t := s.1.owners) howner

end Anchor

namespace Registry

variable {cfg : Config} {AccountId : Type} [DecidableEq AccountId]

/-- Registering overwrites, and a removal carries the feed that it removes. -/
def feedReading : Reading (Event cfg AccountId)
    (AccountId × RegistryFeedKey cfg → Option (ApiFeed cfg)) where
  met
    | .feedRegistered _ _ _, _ => True
    | .feedUnregistered caller key feed, feeds => feeds (caller, key) = some feed
  note
    | .feedRegistered caller key feed, feeds => Function.update feeds (caller, key) (some feed)
    | .feedUnregistered caller key _, feeds => Function.update feeds (caller, key) none

/-- The registry's feeds, by account and key. -/
def State.feeds (s : State cfg AccountId) (k : AccountId × RegistryFeedKey cfg) :
    Option (ApiFeed cfg) := s.apiFeeds k.1 k.2

/-- Setting a feed changes the picture at one place. -/
theorem feeds_setFeed (s : State cfg AccountId) (who : AccountId) (key : RegistryFeedKey cfg)
    (feed : Option (ApiFeed cfg)) :
    (s.setFeed who key feed).feeds = Function.update s.feeds (who, key) feed := by
  funext k
  by_cases hk : k = (who, key)
  · rw [hk, Function.update_self]
    exact setFeed_self ..
  · rw [Function.update_of_ne hk]
    exact setFeed_of_ne s feed fun h => hk (Prod.ext h.1 h.2)

/-- A registration carries the feed. -/
theorem registerFeed_recorded {block : BlockNumber} {origin : Origin AccountId}
    {key : RegistryFeedKey cfg} {url : RegistryFeedUrl cfg} {path : RegistryFeedPath cfg}
    {s s' : State cfg AccountId} (h : registerFeed block origin key url path s = .ok s') :
    Recorded feedReading s.events s.feeds s'.events s'.feeds := by
  obtain ⟨who, _, rfl⟩ := registerFeed_eq_ok.mp h
  have hset := feeds_setFeed s who key (some ⟨block, url, path, .registered⟩)
  unfold State.feeds at hset ⊢
  rw [hset]
  exact .concat (r := feedReading) (t := s.feeds) trivial

/-- And a removal the feed that was there. -/
theorem unregisterFeed_recorded {origin : Origin AccountId} {key : RegistryFeedKey cfg}
    {s s' : State cfg AccountId} (h : unregisterFeed origin key s = .ok s') :
    Recorded feedReading s.events s.feeds s'.events s'.feeds := by
  obtain ⟨who, feed, _, hfeed, rfl⟩ := unregisterFeed_eq_ok.mp h
  have hset := feeds_setFeed s who key none
  unfold State.feeds at hset ⊢
  rw [hset]
  exact .concat (r := feedReading) (t := s.feeds) hfeed

end Registry

namespace Runtime

variable {cfg : Oracle.Config} {AccountId : Type} [DecidableEq AccountId] [Codec AccountId]
  {c c' : Chain cfg AccountId} {call : Call cfg AccountId} {u : Unit}

/-- The calls of the chain that change owners record it. -/
theorem names_recorded (h : apply call c = .ok (u, c')) :
    Recorded Anchor.nameReading c.anchor.events c.anchor.owners c'.anchor.events
      c'.anchor.owners := by
  rcases apply_eq_ok_cases h with ⟨_, _, _, rfl, hclaim, rfl⟩ |
    ⟨_, _, _, _, _, _, rfl, hrollup, rfl⟩ | ⟨_, _, _, _, _, rfl, hrequest, rfl⟩ |
    ⟨_, hanchor, _, _⟩
  · exact Anchor.claimName_recorded hclaim
  · exact Anchor.rollup_recorded hrollup
  · -- a push writes the store of a name
    obtain ⟨_, _, _, _, _, _, _, _, _, _, hpush, _⟩ := Oracle.request_eq_ok.mp hrequest
    obtain ⟨_, _, _, _, _, rfl⟩ := Anchor.pushMessage_eq_ok hpush
    unfold Anchor.State.owners
    rw [Anchor.applyUpdates_events, Anchor.applyUpdates_submitterByNames]
    exact .refl ..
  · rw [hanchor]
    exact .refl ..

/-- And so do those that change feeds. -/
theorem feeds_recorded (h : apply call c = .ok (u, c')) :
    Recorded Registry.feedReading c.registry.events c.registry.feeds c'.registry.events
      c'.registry.feeds := by
  cases call with
  | registerFeed =>
    obtain ⟨_, hregister, rfl⟩ := apply_registerFeed_eq_ok.mp h
    exact Registry.registerFeed_recorded hregister
  | unregisterFeed =>
    obtain ⟨_, hunregister, rfl⟩ := apply_unregisterFeed_eq_ok.mp h
    exact Registry.unregisterFeed_recorded hunregister
  -- the other calls do not reach the registry
  | claimName =>
    obtain ⟨_, _, rfl⟩ := apply_claimName_eq_ok.mp h
    exact .refl ..
  | rollup =>
    obtain ⟨_, _, _, rfl⟩ := apply_rollup_eq_ok.mp h
    exact .refl ..
  | request =>
    obtain ⟨_, _, _, rfl⟩ := apply_request_eq_ok.mp h
    exact .refl ..
  | feeds =>
    obtain ⟨_, rfl⟩ := apply_feeds_eq_ok.mp h
    exact .refl ..
  | average => exact absurd h apply_average_ne_ok
  | nextBlock =>
    rw [apply_nextBlock_eq_ok.mp h]
    exact .refl ..

/-- Over any run of the chain from any state, the events deposited on the way tell who owns which
    name and which feeds are registered. -/
theorem events_tell_names_and_feeds (c : Chain cfg AccountId) (calls : List (Call cfg AccountId)) :
    let c' := run apply c calls
    Recorded Anchor.nameReading c.anchor.events c.anchor.owners c'.anchor.events
        c'.anchor.owners ∧
      Recorded Registry.feedReading c.registry.events c.registry.feeds c'.registry.events
        c'.registry.feeds :=
  ⟨recorded_run (·.anchor.events) (·.anchor.owners) (fun _ _ _ _ => names_recorded) c calls,
    recorded_run (·.registry.events) (·.registry.feeds) (fun _ _ _ _ => feeds_recorded) c calls⟩

end Runtime

/-! ## The collators -/

namespace CollatorSelection

variable {AccountId : Type} [DecidableEq AccountId] {cfg : Config AccountId}

/-- Who collates, in order, and the terms for candidates. -/
structure Roster (AccountId : Type) where
  invulnerables : List AccountId
  candidates : List (CandidateInfo AccountId)
  desiredCandidates : UInt32
  candidacyBond : Nat

/-- What an observer of the collators' events has a picture of. -/
def State.roster (s : State cfg) : Roster AccountId :=
  ⟨s.invulnerables.toList, s.candidates.toList, s.desiredCandidates, s.candidacyBond⟩

/-- A candidate is added where it is new and wanted, for the bond of the time, and the first one
    of an account is removed while there are more than `minCandidates`. -/
def rosterReading (minCandidates : UInt32) : Reading (Event AccountId) (Roster AccountId) where
  met
    | .candidateAdded who deposit, t =>
      t.candidates.length < t.desiredCandidates.toNat ∧ deposit = t.candidacyBond ∧
        who ∉ t.invulnerables ++ t.candidates.map (·.who)
    | .candidateRemoved who, t =>
      minCandidates.toNat < t.candidates.length ∧ who ∈ t.candidates.map (·.who)
    | .newInvulnerables _, _ | .newDesiredCandidates _, _ | .newCandidacyBond _, _ => True
  note
    | .newInvulnerables invulnerables, t => { t with invulnerables }
    | .newDesiredCandidates desiredCandidates, t => { t with desiredCandidates }
    | .newCandidacyBond candidacyBond, t => { t with candidacyBond }
    | .candidateAdded who deposit, t => { t with candidates := t.candidates ++ [⟨who, deposit⟩] }
    | .candidateRemoved who, t => { t with candidates := t.candidates.eraseP (·.who = who) }

/-- A removal names the account, and takes its first candidate out of the list. -/
theorem Removes.recorded {c : CandidateInfo AccountId} {s s' : State cfg} (h : Removes c s s')
    (hmin : cfg.minCandidates.toNat < s.candidates.length) :
    Recorded (rosterReading cfg.minCandidates) s.events s.roster s'.events s'.roster := by
  obtain ⟨before, after, rest, hsplit, hfirst, hrest, rfl⟩ := h
  -- the candidate that is removed is the first of its account
  have herase : s.candidates.toList.eraseP (·.who = c.who) = rest.toList := by
    rw [hsplit, hrest, List.eraseP_append_right _ fun a ha => ?_, List.eraseP_cons_of_pos]
    · exact decide_eq_true rfl
    · rw [decide_eq_true_iff]
      exact fun h => hfirst (List.mem_map.mpr ⟨a, ha, h⟩)
  have hroster : (s.without c rest).roster =
      (rosterReading cfg.minCandidates).note (.candidateRemoved c.who) s.roster := by
    unfold State.roster rosterReading
    dsimp only
    rw [herase]
    rfl
  rw [hroster]
  refine .concat ⟨hmin, List.mem_map.mpr ⟨c, ?_, rfl⟩⟩
  show c ∈ s.candidates.toList
  rw [hsplit]
  exact List.mem_append_right _ List.mem_cons_self

/-- A session deposits an event for each candidate that it removes. -/
theorem Kicks.recorded {s s' : State cfg} (h : Kicks s s') :
    Recorded (rosterReading cfg.minCandidates) s.events s.roster s'.events s'.roster := by
  induction h with
  | refl => exact .refl ..
  | tail _ hkick ih =>
    obtain ⟨c, _, hmin, hremoves⟩ := hkick
    exact ih.trans (hremoves.recorded hmin)

/-- Every call records what it does to the roster. -/
theorem accepted_recorded {op : Op cfg} {s s' : State cfg} (h : Accepted s op s') :
    Recorded (rosterReading cfg.minCandidates) s.events s.roster s'.events s'.roster := by
  cases h with
  | setInvulnerables _ hbounded _ =>
    subst hbounded
    exact .concat (r := rosterReading cfg.minCandidates) (t := s.roster) trivial
  | setDesiredCandidates | setCandidacyBond =>
    exact .concat (r := rosterReading cfg.minCandidates) (t := s.roster) trivial
  | registerAsCandidate hroom hinv _ hnew _ hpush =>
    unfold State.roster
    dsimp only
    rw [hpush]
    refine .concat (r := rosterReading cfg.minCandidates) (t := s.roster) ⟨hroom, rfl, ?_⟩
    rw [List.mem_append]
    exact not_or.mpr ⟨hinv, hnew⟩
  | leaveIntent hmin hremoves => exact hremoves.recorded hmin
  | newSession hkicks => exact hkicks.recorded
  | rewarded | unrewarded | nextBlock | elsewhere => exact .refl ..

/-- Over any run from any state, the events deposited on the way tell who the collators are and
    in which order, and the terms for candidates. -/
theorem events_tell_roster (s : State cfg) (ops : List (Op cfg)) :
    let s' := run apply s ops
    Recorded (rosterReading cfg.minCandidates) s.events s.roster s'.events s'.roster :=
  recorded_run State.events State.roster
    (fun _ _ _ _ h => accepted_recorded (accepted_of_apply h)) s ops

end CollatorSelection

end Paraxiom
