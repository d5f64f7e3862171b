import Paraxiom.Spec.ParaOracleSteps

/-!
# Published values are quorum medians

The para-oracle refines a log of the accepted feeds. Its raw values are what each creator
said last about each key, and the published value of a key is a median of the unexpired
ones of them, as of the most recent feed with the key that met a quorum.

## Key results

- `dispatch_frame`: what an operation does to the raw and the published values
- `Refines.cons`: an accepted feed takes the log and the pallet one step on
- `values_are_quorum_medians`: the refinement over whole runs
-/

namespace Paraxiom.ParaOracle

open Scale OrderStatistic QuorumLog Transactional

variable {AccountId : Type} {cfg : Config AccountId}

/-! ## The log of accepted feeds -/

/-- A feed of this pallet, with the time of the call as its moment. -/
abbrev OracleFeed (cfg : Config AccountId) :=
  QuorumLog.Feed (CreatorId AccountId) (OracleKey cfg.strLimit) TimestampedValue U128

/-- What an operation feeds, and for whom. -/
def Op.feed? : Op cfg → Option (OracleFeed cfg)
  | .feedData now (.signed who) values => some ⟨.accountId who, now, stamped now values⟩
  | .xcmFeedData now (.siblingParachain id) values => some ⟨.paraId id, now, stamped now values⟩
  | _ => none

/-- The feed of an event that succeeded. -/
def acceptedFeed
    (e : Transactional.Event (State cfg) (Op cfg) (Failure DispatchError) Unit) :
    Option (OracleFeed cfg) :=
  match e.result with
  | .ok _ => e.op.feed?
  | .error _ => none

/-- A call that is no feed feeds nothing. -/
theorem acceptedFeed_of_not_feed
    {e : Transactional.Event (State cfg) (Op cfg) (Failure DispatchError) Unit}
    (h : e.op.feed? = none) : acceptedFeed e = none := by
  unfold acceptedFeed
  split
  · exact h
  · rfl

/-- What an event accepted is its feed. -/
theorem feed_of_acceptedFeed
    {e : Transactional.Event (State cfg) (Op cfg) (Failure DispatchError) Unit}
    {f : OracleFeed cfg} (h : acceptedFeed e = some f) : e.op.feed? = some f := by
  unfold acceptedFeed at h
  split at h
  · exact h
  · cases h

/-- The accepted feeds of a history, newest first. -/
def feedLog
    (past : List (Transactional.Event (State cfg) (Op cfg) (Failure DispatchError) Unit)) :
    List (OracleFeed cfg) :=
  (past.filterMap acceptedFeed).reverse

/-- An accepted feed comes first in the log, the latest being in front. -/
theorem feedLog_concat_of_some
    {past : List (Transactional.Event (State cfg) (Op cfg) (Failure DispatchError) Unit)}
    {e : Transactional.Event (State cfg) (Op cfg) (Failure DispatchError) Unit}
    {f : OracleFeed cfg} (h : acceptedFeed e = some f) :
    feedLog (past ++ [e]) = f :: feedLog past := by
  simp [feedLog, h]

/-- Everything else leaves the log. -/
theorem feedLog_concat_of_none
    {past : List (Transactional.Event (State cfg) (Op cfg) (Failure DispatchError) Unit)}
    {e : Transactional.Event (State cfg) (Op cfg) (Failure DispatchError) Unit}
    (h : acceptedFeed e = none) : feedLog (past ++ [e]) = feedLog past := by
  simp [feedLog, h]

/-- Every entry of the log carries the moment of its feed. -/
def Stamped (log : List (OracleFeed cfg)) : Prop :=
  ∀ f ∈ log, ∃ values, f.entries = stamped f.moment values

/-- The entries of a feed carry its moment. -/
theorem feedLog_stamped
    (past : List (Transactional.Event (State cfg) (Op cfg) (Failure DispatchError) Unit)) :
    Stamped (feedLog past) := by
  intro f hf
  obtain ⟨e, _, he⟩ := List.mem_filterMap.mp (List.mem_reverse.mp hf)
  unfold acceptedFeed at he
  split at he
  · -- both calls that feed stamp their entries
    unfold Op.feed? at he
    split at he
    · cases he
      exact ⟨_, rfl⟩
    · cases he
      exact ⟨_, rfl⟩
    · exact nomatch he
  · exact nomatch he

variable [DecidableEq AccountId]

/-! ## Steps -/

/-- The state in which a feed runs its loop. -/
def State.markDispatched (s : State cfg) (cid : CreatorId AccountId) : State cfg :=
  { s with hasDispatched := (cfg.orderedSetInsert cid s.hasDispatched).2 }

/-- A feed marks its creator and runs the loop over its entries, if the set takes the
    creator. -/
theorem feed_eq (now : U128) (cid : CreatorId AccountId)
    (values : List (OracleKey cfg.strLimit × Int)) (s : State cfg) :
    feed now cid values s =
      if (cfg.orderedSetInsert cid s.hasDispatched).1 then
        .ok { feedEntries now cid values (s.markDispatched cid) with
          events := (feedEntries now cid values (s.markDispatched cid)).events ++
            [.newFeedData cid values] }
      else .error (.err (.paraOracle .alreadyFeeded)) := by
  unfold feed State.markDispatched
  cases cfg.orderedSetInsert cid s.hasDispatched with
  | mk inserted set => cases inserted <;> rfl

/-- An operation with a feed is that feed. -/
theorem dispatch_of_feed {op : Op cfg} {f : OracleFeed cfg} (h : op.feed? = some f) :
    ∃ values, f.entries = stamped f.moment values ∧
      ∀ s, dispatch op s = feed f.moment f.creator values s := by
  unfold Op.feed? at h
  split at h
  · cases h
    exact ⟨_, rfl, fun _ => rfl⟩
  · cases h
    exact ⟨_, rfl, fun _ => rfl⟩
  · cases h

/-- The two states have seen the same feeds. -/
structure SameFeeds (s s' : State cfg) : Prop where
  rawValues : s'.rawValues = s.rawValues
  values : s'.values = s.values
  hasDispatched : s'.hasDispatched = s.hasDispatched

/-- Submitting an endpoint feeds nothing. -/
theorem doSubmitApi_frame {block : BlockNumber} {cid : CreatorId AccountId}
    {key : OracleKey cfg.strLimit} {url vpath : Bytes} {s s' : State cfg}
    (h : doSubmitApi block cid key url vpath s = .ok s') : SameFeeds s s' := by
  cases h
  exact ⟨rfl, rfl, rfl⟩

/-- Nor does removing one. -/
theorem doRemoveApi_frame {cid : CreatorId AccountId} {key : OracleKey cfg.strLimit}
    {s s' : State cfg} (h : doRemoveApi cid key s = .ok s') : SameFeeds s s' := by
  unfold doRemoveApi at h
  dsimp only at h
  split at h
  · simp only [Exec.bind_eq_ok, expect_eq_ok, Exec.pure_eq_ok] at h
    obtain ⟨feed, _, rfl⟩ := h
    exact ⟨rfl, rfl, rfl⟩
  · cases h

omit [DecidableEq AccountId] in
/-- Nor does a query. -/
theorem xcmQueryData_frame {origin : Origin AccountId} {key : OracleKey cfg.strLimit}
    {s s' : State cfg} (h : xcmQueryData origin key s = .ok s') : SameFeeds s s' := by
  unfold xcmQueryData at h
  simp only [Exec.bind_eq_ok] at h
  obtain ⟨paraId, _, h⟩ := h
  split at h
  · simp only [sendQretToParachain, Exec.bind_eq_ok, Exec.pure_eq_ok] at h
    obtain ⟨_, _, rfl⟩ := h
    exact ⟨rfl, rfl, rfl⟩
  · cases h

/-- An operation without a feed leaves what was fed, unless it ends the block. -/
theorem dispatch_of_not_feed {op : Op cfg} (hfeed : op.feed? = none) (hend : op ≠ .onFinalize)
    {s s' : State cfg} (h : dispatch op s = .ok s') : SameFeeds s s' := by
  cases op with
  | feedData now origin values =>
    simp only [dispatch, feedData, Exec.bind_eq_ok, ensureSigned_eq_ok] at h
    obtain ⟨who, rfl, _⟩ := h
    cases hfeed
  | xcmFeedData now origin values =>
    simp only [dispatch, xcmFeedData, Exec.bind_eq_ok, ensureSiblingPara_eq_ok] at h
    obtain ⟨id, rfl, _⟩ := h
    cases hfeed
  | xcmQueryData origin key => exact xcmQueryData_frame h
  | submitApi block origin key url vpath =>
    simp only [dispatch, submitApi, Exec.bind_eq_ok] at h
    obtain ⟨_, _, h⟩ := h
    exact doSubmitApi_frame h
  | removeApi origin key =>
    simp only [dispatch, removeApi, Exec.bind_eq_ok] at h
    obtain ⟨_, _, h⟩ := h
    exact doRemoveApi_frame h
  | xcmSubmitApi block origin key url vpath =>
    simp only [dispatch, xcmSubmitApi, Exec.bind_eq_ok] at h
    obtain ⟨_, _, h⟩ := h
    exact doSubmitApi_frame h
  | xcmRemoveApi origin key =>
    simp only [dispatch, xcmRemoveApi, Exec.bind_eq_ok] at h
    obtain ⟨_, _, h⟩ := h
    exact doRemoveApi_frame h
  | onFinalize => exact absurd rfl hend

/-- A step with an accepted call. -/
theorem step_of_dispatch_ok {op : Op cfg} {s s' : State cfg} (h : dispatch op s = .ok s') :
    step apply s op = s' :=
  step_of_ok (by rw [apply, h]; rfl)

/-- A step with a refused call. -/
theorem step_of_dispatch_error {op : Op cfg} {s : State cfg} {e : Failure DispatchError}
    (h : dispatch op s = .error e) : step apply s op = s :=
  step_of_error (by rw [apply, h]; rfl)

/-- Apart from the set of who has fed, the queries and the endpoints, an operation that
    succeeds runs the loop over its feed, if it has one. -/
theorem dispatch_frame {op : Op cfg} {s s' : State cfg} (h : dispatch op s = .ok s') :
    match op.feed? with
    | none => s'.rawValues = s.rawValues ∧ s'.values = s.values
    | some f => ∃ values s₁, f.entries = stamped f.moment values ∧
        s₁.rawValues = s.rawValues ∧ s₁.values = s.values ∧
        s'.rawValues = (feedEntries f.moment f.creator values s₁).rawValues ∧
        s'.values = (feedEntries f.moment f.creator values s₁).values := by
  cases hfeed : op.feed? with
  | none =>
    by_cases hend : op = .onFinalize
    · -- the end of a block clears the set of who has fed
      subst hend
      cases h
      exact ⟨rfl, rfl⟩
    · have hframe := dispatch_of_not_feed hfeed hend h
      exact ⟨hframe.rawValues, hframe.values⟩
  | some f =>
    -- the loop runs in the state that has the creator marked
    obtain ⟨values, hentries, hdispatch⟩ := dispatch_of_feed hfeed
    rw [hdispatch, feed_eq] at h
    split_ifs at h
    cases h
    exact ⟨values, s.markDispatched f.creator, hentries, rfl, rfl, rfl, rfl⟩

/-- An event changes the raw and the published values by its accepted feed alone. -/
theorem step_frame (op : Op cfg) (s : State cfg) :
    match acceptedFeed (event apply s op) with
    | none => (step apply s op).rawValues = s.rawValues ∧ (step apply s op).values = s.values
    | some f => ∃ values s₁, f.entries = stamped f.moment values ∧
        s₁.rawValues = s.rawValues ∧ s₁.values = s.values ∧
        (step apply s op).rawValues = (feedEntries f.moment f.creator values s₁).rawValues ∧
        (step apply s op).values = (feedEntries f.moment f.creator values s₁).values := by
  cases h : (event apply s op).result with
  | error e =>
    -- a call that fails is rolled back
    simp only [acceptedFeed, h, step_of_error (event_result_eq_error.mp h), and_self]
  | ok u =>
    have happly := event_result_eq_ok.mp h
    simp only [apply, Exec.bind_eq_ok, Exec.pure_eq_ok, Prod.mk.injEq] at happly
    obtain ⟨s', hdispatch, _, rfl⟩ := happly
    simp only [acceptedFeed, h, event_op]
    exact dispatch_frame hdispatch

/-! ## The refinement -/

/-- The pallet's raw and published values are what its log says. -/
structure Refines (expiresIn : U128) (minimumCount : UInt32) (log : List (OracleFeed cfg))
    (s : State cfg) : Prop where
  raw : ∀ c k, s.rawValues.lookup (c, k) = latest log c k
  published : ∀ k, Published (unexpired expiresIn) (quorum minimumCount) TimestampedValue.value
    log k (s.values k)

/-- No expiry time wraps and the creators can be counted. -/
structure LogBounds (expiresIn : U128) (log : List (OracleFeed cfg)) : Prop where
  time : ∀ f ∈ log, f.moment.toNat + expiresIn.toNat < 2 ^ 128
  creators : (creators log).length < 2 ^ 32

variable {expiresIn : U128} {minimumCount : UInt32} {log : List (OracleFeed cfg)}
  {f : OracleFeed cfg} {s : State cfg}

/-- The bounds hold of the log before the latest feed. -/
theorem LogBounds.tail (h : LogBounds expiresIn (f :: log)) : LogBounds expiresIn log where
  time g hg := h.time g (List.mem_cons_of_mem _ hg)
  creators := Nat.lt_of_le_of_lt (length_creators_le_cons f log) h.creators

/-- The raw values of a pallet that refines a log are bounded as the log is. -/
theorem Refines.rawBounds (h : Refines expiresIn minimumCount log s) (hstamped : Stamped log)
    (hbounds : LogBounds expiresIn (f :: log)) (k : OracleKey cfg.strLimit) :
    RawBounds expiresIn (creators (f :: log)) k s.rawValues where
  mem c x hx := by
    -- a raw value is someone's entry in the log
    rw [h.raw] at hx
    obtain ⟨g, hg, hc, _⟩ := latest_eq_some hx
    exact mem_creators.mpr ⟨g, List.mem_cons_of_mem _ hg, hc⟩
  time c x hx := by
    rw [h.raw] at hx
    obtain ⟨g, hg, _, hx⟩ := latest_eq_some hx
    obtain ⟨values, hvalues⟩ := hstamped g hg
    rw [hvalues] at hx
    rw [timestamp_of_lastEntry hx]
    exact hbounds.tail.time g hg

/-- The live raw values are the votes of the log. -/
theorem liveValues_eq_votes
    {raw : StorageMap (CreatorId AccountId × OracleKey cfg.strLimit) TimestampedValue}
    (h : ∀ c k, raw.lookup (c, k) = latest log c k) (now : U128) (k : OracleKey cfg.strLimit) :
    liveValues expiresIn now (creators log) k raw = votes (unexpired expiresIn now) log k := by
  simp only [liveValues, votes, h]

/-- Running the loop over a feed's entries takes the log and the pallet one step on. -/
theorem Refines.cons {selectNth : Selection TimestampedValue.value}
    (hcombine : cfg.combineData = defaultCombineData selectNth minimumCount expiresIn)
    (h : Refines expiresIn minimumCount log s) (hstamped : Stamped log)
    (hbounds : LogBounds expiresIn (f :: log)) {values : List (OracleKey cfg.strLimit × Int)}
    (hf : f.entries = stamped f.moment values) :
    Refines expiresIn minimumCount (f :: log) (feedEntries f.moment f.creator values s) := by
  have hraw : ∀ c k, (feedEntries f.moment f.creator values s).rawValues.lookup (c, k) =
      latest (f :: log) c k := by
    intro c k
    rw [lookup_feedEntries, latest, ← hf, h.raw]
  refine ⟨hraw, fun k => ?_⟩
  have hk := h.rawBounds hstamped hbounds k
  have hcid : f.creator ∈ creators (f :: log) := mem_creators.mpr ⟨f, List.mem_cons_self, rfl⟩
  have hnow := hbounds.time f List.mem_cons_self
  by_cases hkey : k ∈ f.keys
  · by_cases hquorum :
        quorum minimumCount ≤ (votes (unexpired expiresIn f.moment) (f :: log) k).length
    · -- the feed decides the key
      refine Published.cons_of_decides ⟨hkey, hquorum⟩ ?_
      rw [← liveValues_eq_votes hraw] at hquorum ⊢
      refine values_feedEntries_of_quorum hcombine hk (nodup_creators _) hbounds.creators hcid hnow
        ?_ hquorum
      rwa [← hf, lastEntry_isSome]
    · -- it has the key, but no quorum
      refine Published.cons_of_not (fun hdecides => hquorum hdecides.2) ?_
      rw [← liveValues_eq_votes hraw] at hquorum
      rw [values_feedEntries_of_not_quorum hcombine hk (nodup_creators _) hbounds.creators hcid hnow
        hquorum]
      exact h.published k
  · -- it does not have the key
    refine Published.cons_of_not (fun hdecides => hkey hdecides.1) ?_
    rw [values_feedEntries_of_none (by rw [← hf]; exact (lastEntry_eq_none _ _).mpr hkey)]
    exact h.published k

/-- Refinement reads the raw and the published values alone. -/
theorem Refines.congr {s' : State cfg} (h : Refines expiresIn minimumCount log s)
    (hraw : s'.rawValues = s.rawValues) (hvalues : s'.values = s.values) :
    Refines expiresIn minimumCount log s' :=
  ⟨by rw [hraw]; exact h.raw, by rw [hvalues]; exact h.published⟩

/-- One operation keeps the refinement. -/
theorem refines_step {selectNth : Selection TimestampedValue.value}
    (hcombine : cfg.combineData = defaultCombineData selectNth minimumCount expiresIn)
    {past : List (Transactional.Event (State cfg) (Op cfg) (Failure DispatchError) Unit)}
    (h : Refines expiresIn minimumCount (feedLog past) s) (op : Op cfg)
    (hbounds : LogBounds expiresIn (feedLog (past ++ [event apply s op]))) :
    Refines expiresIn minimumCount (feedLog (past ++ [event apply s op])) (step apply s op) := by
  have hframe := step_frame op s
  cases hfeed : acceptedFeed (event apply s op) with
  | none =>
    rw [hfeed] at hframe
    rw [feedLog_concat_of_none hfeed]
    exact h.congr hframe.1 hframe.2
  | some f =>
    rw [hfeed] at hframe
    obtain ⟨values, s₁, hf, hraw₁, hvalues₁, hraw, hvalues⟩ := hframe
    rw [feedLog_concat_of_some hfeed] at hbounds ⊢
    have hcons := (h.congr hraw₁ hvalues₁).cons hcombine (feedLog_stamped past) hbounds hf
    exact hcons.congr hraw hvalues

/-- A run refines the log of its accepted feeds. -/
theorem refines_run {selectNth : Selection TimestampedValue.value}
    (hcombine : cfg.combineData = defaultCombineData selectNth minimumCount expiresIn)
    (ops : List (Op cfg)) (hbounds : LogBounds expiresIn (feedLog (history apply genesis ops))) :
    Refines expiresIn minimumCount (feedLog (history apply genesis ops))
      (run apply genesis ops) := by
  refine history_induction (P := fun past s => LogBounds expiresIn (feedLog past) →
    Refines expiresIn minimumCount (feedLog past) s) (G := fun _ => True) ?_ ?_ ops
    (fun _ _ => trivial) hbounds
  · intro _
    exact ⟨fun _ _ => rfl, fun _ => published_nil⟩
  · intro past s op _ ih hbounds
    refine refines_step hcombine (ih ?_) op hbounds
    -- a shorter log is bounded too
    cases hfeed : acceptedFeed (event apply s op) with
    | none => rwa [feedLog_concat_of_none hfeed] at hbounds
    | some f =>
      rw [feedLog_concat_of_some hfeed] at hbounds
      exact hbounds.tail

/-- An operation without an accepted feed that has the key leaves the published value and
    everyone's raw value of the key. -/
theorem step_frame_of_not_mem {op : Op cfg} {k : OracleKey cfg.strLimit}
    (h : ∀ f, acceptedFeed (event apply s op) = some f → k ∉ f.keys) :
    (step apply s op).values k = s.values k ∧
      ∀ c, (step apply s op).rawValues.lookup (c, k) = s.rawValues.lookup (c, k) := by
  have hframe := step_frame op s
  cases hfeed : acceptedFeed (event apply s op) with
  | none =>
    rw [hfeed] at hframe
    exact ⟨by rw [hframe.2], fun c => by rw [hframe.1]⟩
  | some f =>
    -- the feed has no entry of the key, so its loop passes over it
    rw [hfeed] at hframe
    obtain ⟨values, s₁, hf, hraw₁, hvalues₁, hraw, hvalues⟩ := hframe
    have hlast : lastEntry (stamped f.moment values) k = none := by
      rw [← hf]
      exact (lastEntry_eq_none _ _).mpr (h f hfeed)
    constructor
    · rw [hvalues, values_feedEntries_of_none hlast, hvalues₁]
    · intro c
      rw [hraw, lookup_feedEntries, hlast, Option.none_or, ite_self, hraw₁]

/-- The published value of every key is the quorum median of the feeders' latest values, in
    every state that a run reaches: a median of the votes at the most recent accepted feed
    with the key that met the quorum, and absent if there was none. The raw values are what
    each creator said last, and nothing but an accepted feed with the key changes either. -/
theorem values_are_quorum_medians {selectNth : Selection TimestampedValue.value}
    (hcombine : cfg.combineData = defaultCombineData selectNth minimumCount expiresIn)
    (ops : List (Op cfg))
    (htime : ∀ f ∈ feedLog (history apply genesis ops),
      f.moment.toNat + expiresIn.toNat < 2 ^ 128)
    (hcreators : (creators (feedLog (history apply genesis ops))).length < 2 ^ 32)
    (k : OracleKey cfg.strLimit) :
    (match decisive (unexpired expiresIn) (max 1 minimumCount.toNat)
        (feedLog (history apply genesis ops)) k with
      | none => (run apply genesis ops).values k = none
      | some (f, older) => ∃ x ∈ votes (unexpired expiresIn f.moment) (f :: older) k,
          (run apply genesis ops).values k = some x ∧
          nthSmallest ((votes (unexpired expiresIn f.moment) (f :: older) k).map (·.value))
            ((votes (unexpired expiresIn f.moment) (f :: older) k).length / 2) = some x.value) ∧
    (∀ c, (run apply genesis ops).rawValues.lookup (c, k) =
      latest (feedLog (history apply genesis ops)) c k) ∧
    ∀ e ∈ history apply genesis ops, (∀ f, acceptedFeed e = some f → k ∉ f.keys) →
      e.post.values k = e.pre.values k ∧
        ∀ c, e.post.rawValues.lookup (c, k) = e.pre.rawValues.lookup (c, k) := by
  have hrefines := refines_run hcombine ops ⟨htime, hcreators⟩
  refine ⟨?_, fun c => hrefines.raw c k, ?_⟩
  · -- what is published is a median of the votes at the decisive feed
    have hpublished := hrefines.published k
    unfold Published quorum at hpublished
    split at hpublished
    · rename_i hnone
      rw [hnone]
      exact hpublished
    · rename_i f older hsome
      rw [hsome]
      obtain ⟨x, hx, hmem, hmedian⟩ := hpublished
      exact ⟨x, hmem, hx, hmedian⟩
  · -- any event of the history is a step from a state that the run reaches
    intro e he h
    obtain ⟨before, op, after, rfl, rfl⟩ := mem_history he
    exact step_frame_of_not_mem h

/-! ## A run -/

/-- The median of two unexpired values, where values expire after 100 ms. -/
def sampleMedianConfig : Config Nat :=
  sampleConfig (defaultCombineData (Selection.ofSort _) 2 100)

def sampleKey : OracleKey 32 := ⟨[0x61], by decide⟩

/-- Three creators feed a key, one of them twice in one list and once again in vain, and the
    first value has expired when the last is fed. -/
def sampleOps : List (Op sampleMedianConfig) :=
  [.feedData 5 (.signed 1) [(sampleKey, 30), (sampleKey, 10)],
   .feedData 5 (.signed 1) [(sampleKey, 99)],
   .xcmFeedData 5 (.siblingParachain 2000) [(sampleKey, 20)],
   .onFinalize,
   .feedData 106 (.signed 2) [(sampleKey, 50)]]

/-- The feeds of the run that met the quorum, newest first. -/
def sampleLog : List (OracleFeed sampleMedianConfig) :=
  [⟨.paraId 2000, 5, [(sampleKey, ⟨20, 5⟩)]⟩,
   ⟨.accountId 1, 5, [(sampleKey, ⟨30, 5⟩), (sampleKey, ⟨10, 5⟩)]⟩]

theorem values_are_quorum_medians_sample :
    ∃ x ∈ votes (unexpired 100 5) sampleLog sampleKey,
      (run apply genesis sampleOps).values sampleKey = some x ∧
      nthSmallest ((votes (unexpired 100 5) sampleLog sampleKey).map (·.value))
        ((votes (unexpired 100 5) sampleLog sampleKey).length / 2) = some x.value :=
  (values_are_quorum_medians rfl sampleOps (by decide) (by decide) sampleKey).1

example : (run apply genesis sampleOps).values sampleKey = some ⟨20, 5⟩ := by decide

end Paraxiom.ParaOracle
