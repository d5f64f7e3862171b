import Paraxiom.Spec.QuorumMedian
import Paraxiom.Spec.WorkerFailures

/-!
# Sources that share a key

The off-chain worker fetches every source of a key, but its accounts feed the values under
their own names, and a feeder has one raw value of a key. So of the sources of a key only
the last one in the order of the storage is left among the raw values, unless another
feeder happens to have the same value. `sources_kept_iff` says this exactly.
-/

namespace Paraxiom.ParaOracle

open Scale QuorumLog Transactional

variable {AccountId : Type} [DecidableEq AccountId] {cfg : Config AccountId}

/-! ## Raw values -/

/-- Stamping a list stamps its last entries. -/
theorem lastEntry_stamped {K : Type} [DecidableEq K] (now : U128) (values : List (K × Int))
    (k : K) : lastEntry (stamped now values) k = (lastEntry values k).map (⟨·, now⟩) := by
  induction values using List.reverseRecOn with
  | nil => rfl
  | append_singleton values e ih =>
    obtain ⟨key, value⟩ := e
    rw [stamped_concat]
    by_cases hk : k = key
    · subst hk
      rw [lastEntry_concat_self, lastEntry_concat_self, Option.map_some]
    · rw [lastEntry_concat_of_ne _ hk, lastEntry_concat_of_ne _ hk, ih]

/-- Only a feed changes raw values. -/
theorem rawValues_step_of_not_feed {op : Op cfg} (h : op.feed? = none) (s : State cfg) :
    (step apply s op).rawValues = s.rawValues := by
  have hframe := step_frame op s
  have hnone : acceptedFeed (event apply s op) = none := acceptedFeed_of_not_feed h
  rw [hnone] at hframe
  exact hframe.1

/-- An accepted feed files the last entry of a key as its account's raw value. -/
theorem lookup_step_feedData {now : U128} {who : AccountId}
    {values : List (OracleKey cfg.strLimit × Int)} {s : State cfg}
    (h : (event apply s (.feedData now (.signed who) values)).result = .ok ())
    (c : CreatorId AccountId) (k : OracleKey cfg.strLimit) :
    (step apply s (.feedData now (.signed who) values)).rawValues.lookup (c, k) =
      if .accountId who = c then
        ((lastEntry values k).map (⟨·, now⟩)).or (s.rawValues.lookup (c, k))
      else s.rawValues.lookup (c, k) := by
  have hframe := step_frame (.feedData now (.signed who) values) s
  have hfeed : acceptedFeed (event apply s (.feedData now (.signed who) values)) =
      some ⟨.accountId who, now, stamped now values⟩ := by
    simp only [acceptedFeed, h, event_op]
    rfl
  rw [hfeed] at hframe
  obtain ⟨values', s₁, hentries, hraw₁, _, hraw, _⟩ := hframe
  rw [hraw, lookup_feedEntries, ← hentries, lastEntry_stamped, hraw₁]

/-! ## The transactions of the worker -/

/-- The calls that the worker submits, at the times at which they are executed. -/
def workerOps (time : AccountId → U128)
    (submitted : List (AccountId × List (OracleKey cfg.strLimit × Int))) : List (Op cfg) :=
  submitted.map fun (account, values) => .feedData (time account) (.signed account) values

section Submit

variable {time : AccountId → U128} {values : List (OracleKey cfg.strLimit × Int)}
  {k : OracleKey cfg.strLimit}

/-- In a run whose feeds are the worker's transactions, every account ends up with the last
    entry of a key as its raw value of it. -/
theorem lookup_run_workerOps {accounts : List AccountId} {ops : List (Op cfg)} {s : State cfg}
    (hops : ops.filter (·.feed?.isSome) = workerOps time (accounts.map (·, values)))
    (haccepted : ∀ e ∈ history apply s ops, e.op.feed?.isSome → e.result = .ok ()) {value : Int}
    (hlast : lastEntry values k = some value) :
    ∀ c, (∃ account ∈ accounts, c = .accountId account ∧
        (run apply s ops).rawValues.lookup (c, k) = some ⟨value, time account⟩) ∨
      (∀ account ∈ accounts, c ≠ .accountId account) ∧
        (run apply s ops).rawValues.lookup (c, k) = s.rawValues.lookup (c, k) := by
  intro c
  induction ops generalizing accounts s with
  | nil =>
    cases accounts with
    | nil => exact .inr ⟨fun _ h => absurd h List.not_mem_nil, rfl⟩
    | cons account accounts => cases hops
  | cons op ops ih =>
    have hlater := fun e he => haccepted e (List.mem_cons_of_mem _ he)
    cases hfeed : op.feed? with
    | none =>
      -- any other call leaves the raw values
      rw [List.filter_cons_of_neg (by rw [hfeed]; exact Bool.false_ne_true)] at hops
      rw [run_cons, ← rawValues_step_of_not_feed hfeed s]
      exact ih hops hlater
    | some f =>
      have hisSome : op.feed?.isSome = true := by rw [hfeed]; rfl
      rw [List.filter_cons_of_pos (p := fun op : Op cfg => op.feed?.isSome) hisSome] at hops
      cases accounts with
      | nil => cases hops
      | cons account accounts =>
        -- the first feed of the run is the transaction of the first account
        obtain ⟨rfl, hrest⟩ := List.cons.inj hops
        have hlookup := lookup_step_feedData (haccepted _ List.mem_cons_self hisSome) c k
        rw [hlast, Option.map_some, Option.some_or] at hlookup
        rcases ih hrest hlater with ⟨later, hmem, hc, hvalue⟩ | ⟨hnone, hsame⟩
        · exact .inl ⟨later, List.mem_cons_of_mem _ hmem, hc, hvalue⟩
        · -- no later account is `c`: what the first one left stays
          by_cases hc : .accountId account = c
          · rw [if_pos hc] at hlookup
            exact .inl ⟨account, List.mem_cons_self, hc.symm, hsame.trans hlookup⟩
          · rw [if_neg hc] at hlookup
            refine .inr ⟨?_, hsame.trans hlookup⟩
            intro other hother
            rcases List.mem_cons.mp hother with rfl | hother
            · exact fun heq => hc heq.symm
            · exact hnone other hother

end Submit

/-! ## What is kept -/

/-- The values of the sources in the order in which the worker fetches them. -/
def sourceValues (value : CreatorId AccountId × OracleKey cfg.strLimit → Int) (s : State cfg) :
    List (OracleKey cfg.strLimit × Int) :=
  (feedEntriesOf s).map fun entry => (entry.1.2, value entry.1)

section Sources

variable {accounts : List AccountId} {host : CreatorId AccountId × OracleKey cfg.strLimit → Host}
  {value : CreatorId AccountId × OracleKey cfg.strLimit → Int} {s₀ s : State cfg}

omit [DecidableEq AccountId] in
/-- If every feed is fetched, the worker submits the value of every source. -/
theorem fetchedValues_of_fetched (hfetched : ∀ entry ∈ feedEntriesOf s₀,
      fetchFeed (host entry.1) entry.2 = .ok (some (value entry.1))) :
    fetchedValues host s₀ = sourceValues value s₀ := by
  rw [fetchedValues, sourceValues, ← List.filterMap_eq_map]
  refine List.filterMap_congr fun entry hentry => ?_
  rw [fetched, hfetched entry hentry]
  rfl

omit [DecidableEq AccountId] in
theorem submitted_of_fetched (haccounts : accounts ≠ []) (hfetched : ∀ entry ∈ feedEntriesOf s₀,
      fetchFeed (host entry.1) entry.2 = .ok (some (value entry.1)))
    {submitted : List (AccountId × List (OracleKey cfg.strLimit × Int))}
    (hworker : fetchApiAndFeedData accounts host s₀ = .ok submitted)
    (hsources : sourceValues value s₀ ≠ []) :
    submitted = accounts.map (·, sourceValues value s₀) := by
  have hnone : firstFailure host (feedEntriesOf s₀) = none := by
    refine firstFailure_eq_none.mpr fun entry hentry => ?_
    rw [feedFails, hfetched entry hentry]
  rw [fetchApiAndFeedData_eq haccounts, hnone] at hworker
  simp only [fetchedValues_of_fetched hfetched, if_neg hsources] at hworker
  exact (Except.ok.inj hworker).symm

variable (value) in
/-- A source has a value among those of its key. -/
theorem sourceValues_mem {c : CreatorId AccountId} {k : OracleKey cfg.strLimit}
    (h : (c, k) ∈ s₀.apiFeeds) : k ∈ (sourceValues value s₀).map Prod.fst := by
  obtain ⟨feed, hfeed⟩ := Option.isSome_iff_exists.mp (AList.lookup_isSome.mpr h)
  rw [sourceValues, List.map_map]
  exact List.mem_map.mpr ⟨((c, k), feed), StorageMap.mem_iter.mpr hfeed, rfl⟩

/-- Which values are among the raw values of a key after the worker's transactions. -/
theorem mem_raw_of_worker (haccounts : accounts ≠ []) {time : AccountId → U128}
    {values : List (OracleKey cfg.strLimit × Int)} {ops : List (Op cfg)}
    (hops : ops.filter (·.feed?.isSome) = workerOps time (accounts.map (·, values)))
    (haccepted : ∀ e ∈ history apply s ops, e.op.feed?.isSome → e.result = .ok ())
    {k : OracleKey cfg.strLimit} (hk : k ∈ values.map Prod.fst) (v : Int) :
    v ∈ (readRawValues k (run apply s ops)).map (·.value) ↔
      lastEntry values k = some v ∨
        ∃ c' x, (∀ account ∈ accounts, c' ≠ .accountId account) ∧
          s.rawValues.lookup (c', k) = some x ∧ x.value = v := by
  obtain ⟨last, hlast⟩ := Option.isSome_iff_exists.mp ((lastEntry_isSome values k).mpr hk)
  have hraw := lookup_run_workerOps hops haccepted hlast
  simp only [List.mem_map, mem_readRawValues]
  -- each creator is an account of the worker, or holds what it held
  constructor
  · rintro ⟨x, ⟨c, hx⟩, rfl⟩
    rcases hraw c with ⟨account, _, _, hvalue⟩ | ⟨hother, hsame⟩
    · -- the worker's accounts hold the last value of the key
      rw [hvalue] at hx
      cases hx
      exact .inl hlast
    · -- everybody else holds what they held
      exact .inr ⟨c, x, hother, hsame ▸ hx, rfl⟩
  · rintro (hv | ⟨c, x, hother, hx, rfl⟩)
    · -- any account of the worker will do
      obtain ⟨account, haccount⟩ := List.exists_mem_of_ne_nil accounts haccounts
      rw [hlast] at hv
      cases hv
      rcases hraw (.accountId account) with ⟨a, _, heq, hvalue⟩ | ⟨hother, _⟩
      · exact ⟨_, ⟨_, hvalue⟩, rfl⟩
      · exact absurd rfl (hother account haccount)
    · rcases hraw c with ⟨account, haccount, hc, _⟩ | ⟨_, hsame⟩
      · exact absurd hc (hother account haccount)
      · exact ⟨x, ⟨c, hsame.trans hx⟩, rfl⟩

end Sources

/-- The worker runs in the state `s₀` and fetches every feed; its transactions are accepted
    from `s` on, with block ends and calls that feed nothing in between. Every source of
    every key is then among the raw values of the key if and only if each has the value of
    the last source of its key or the raw value of somebody who is not one of the worker's
    accounts. -/
theorem sources_kept_iff {accounts : List AccountId} (haccounts : accounts ≠ [])
    {host : CreatorId AccountId × OracleKey cfg.strLimit → Host}
    {value : CreatorId AccountId × OracleKey cfg.strLimit → Int} {s₀ s : State cfg}
    (hfetched : ∀ entry ∈ feedEntriesOf s₀,
      fetchFeed (host entry.1) entry.2 = .ok (some (value entry.1)))
    {submitted : List (AccountId × List (OracleKey cfg.strLimit × Int))}
    (hworker : fetchApiAndFeedData accounts host s₀ = .ok submitted) (time : AccountId → U128)
    {ops : List (Op cfg)} (hops : ops.filter (·.feed?.isSome) = workerOps time submitted)
    (haccepted : ∀ e ∈ history apply s ops, e.op.feed?.isSome → e.result = .ok ()) :
    (∀ c k, (c, k) ∈ s₀.apiFeeds →
      value (c, k) ∈ (readRawValues k (run apply s ops)).map (·.value)) ↔
      ∀ c k, (c, k) ∈ s₀.apiFeeds →
        lastEntry (sourceValues value s₀) k = some (value (c, k)) ∨
          ∃ c' x, (∀ account ∈ accounts, c' ≠ .accountId account) ∧
            s.rawValues.lookup (c', k) = some x ∧ x.value = value (c, k) := by
  refine forall₂_congr fun c k => ?_
  refine forall_congr' fun hsource => ?_
  have hk := sourceValues_mem value hsource
  -- there is a source, so the worker has something to submit
  have hne : sourceValues value s₀ ≠ [] := by
    rintro hnil
    rw [hnil] at hk
    cases hk
  rw [submitted_of_fetched haccounts hfetched hworker hne] at hops
  exact mem_raw_of_worker haccounts hops haccepted hk _

/-! ## Two sources of one key -/

/-- Accounts 1 and 2 register a source of the same key each. -/
def sharedKeyOps : List (Op sampleMedianConfig) :=
  [.submitApi 1 (.signed 1) sampleKey [0x75] [], .submitApi 1 (.signed 2) sampleKey [0x76] []]

/-- The first source answers 1, the second 2. -/
def sharedKeyHost (source : CreatorId Nat × OracleKey 32) : Host :=
  sampleHost (if source.1 = .accountId 1 then [0x31] else [0x32])

/-- The transaction of the worker's account 7 leaves the raw values of the key without the
    value of account 1's source. -/
theorem shared_source_lost :
    fetchApiAndFeedData [7] sharedKeyHost (run apply genesis sharedKeyOps) =
        .ok [(7, [(sampleKey, 1000000), (sampleKey, 2000000)])] ∧
      (event apply (run apply genesis sharedKeyOps)
        (.feedData 5 (.signed 7) [(sampleKey, 1000000), (sampleKey, 2000000)])).result = .ok () ∧
      (.accountId 1, sampleKey) ∈ (run apply genesis sharedKeyOps).apiFeeds ∧
      1000000 ∉ (readRawValues sampleKey (run apply genesis (sharedKeyOps ++
        [.feedData 5 (.signed 7) [(sampleKey, 1000000), (sampleKey, 2000000)]]))).map (·.value) :=
  ⟨by decide, by decide, AList.lookup_isSome.mp (by decide), by decide⟩

/-- Both sources answer 1. -/
def agreeingHost (_ : CreatorId Nat × OracleKey 32) : Host := sampleHost [0x31]

/-- What this answer is parsed to. -/
def agreeingValue (_ : CreatorId Nat × OracleKey 32) : Int := 1000000

/-- The worker's accounts 7 and 8 submit this in two blocks. -/
def agreeingOps : List (Op sampleMedianConfig) :=
  [.feedData 5 (.signed 7) [(sampleKey, 1000000), (sampleKey, 1000000)], .onFinalize,
   .feedData 6 (.signed 8) [(sampleKey, 1000000), (sampleKey, 1000000)]]

/-- If both sources agree, none is lost. -/
theorem sources_kept_iff_sample :
    1000000 ∈ (readRawValues sampleKey (run apply (run apply genesis sharedKeyOps)
      agreeingOps)).map (·.value) := by
  have haccounts : [7, 8] ≠ [] := by decide
  have hfetched : ∀ entry ∈
      feedEntriesOf (run apply (genesis : State sampleMedianConfig) sharedKeyOps),
      fetchFeed (agreeingHost entry.1) entry.2 = .ok (some (agreeingValue entry.1)) := by decide
  have hworker : fetchApiAndFeedData [7, 8] agreeingHost (run apply genesis sharedKeyOps) =
      .ok ([7, 8].map (·, [(sampleKey, 1000000), (sampleKey, 1000000)])) := by decide
  have haccepted : ∀ e ∈ history apply (run apply genesis sharedKeyOps) agreeingOps,
      e.op.feed?.isSome → e.result = .ok () := by decide
  refine (sources_kept_iff haccounts hfetched hworker (fun who => if who = 7 then 5 else 6) rfl
    haccepted).mpr ?_ (.accountId 1) sampleKey (AList.lookup_isSome.mp (by decide))
  intro c k hsource
  -- every source is one of the sample key
  have hkeys : (run apply genesis sharedKeyOps).apiFeeds.keys.all
      (fun source => source.2.toList = sampleKey.toList) = true := by decide
  have hk : k = sampleKey :=
    BoundedVec.ext (of_decide_eq_true (List.all_eq_true.mp hkeys (c, k) hsource))
  subst hk
  have hlast : lastEntry (sourceValues agreeingValue (run apply genesis sharedKeyOps)) sampleKey =
      some 1000000 := by decide
  exact .inl hlast

end Paraxiom.ParaOracle
