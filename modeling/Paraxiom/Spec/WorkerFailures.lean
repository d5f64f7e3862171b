import Paraxiom.ForStd.Transactional
import Paraxiom.Pallets.ParaOracleWorker

/-!
# Feeds that fail in the off-chain worker

The worker leaves its loop at the first feed that fails and submits nothing, so one bad feed
silences all others; and a URL that is not UTF-8 makes it panic. `fetchApiAndFeedData_eq`
says this in one equation, and `worker_delivers_iff` where the worker does what it is for:
submit one entry for each feed that was fetched and parsed.
-/

namespace Paraxiom.ParaOracle

open Scale Transactional

/-! ## One feed -/

theorem noPanic_mapError {ε α : Type} (x : Except ε α) :
    Exec.NoPanic (x.mapError Failure.err) := by
  cases x with
  | ok a => exact Exec.noPanic_ok a
  | error e => exact Exec.noPanic_err e

/-- With a URL in UTF-8, fetching ends in a body or an error. -/
theorem noPanic_fetchHttpGetResult {host : Host} {url : Bytes} (h : (fromUtf8 url).isSome) :
    (fetchHttpGetResult host url).NoPanic := by
  obtain ⟨request, hrequest⟩ := Option.isSome_iff_exists.mp h
  unfold fetchHttpGetResult
  rw [hrequest]
  refine Exec.noPanic_bind (Exec.noPanic_ok request) fun _ _ => ?_
  refine Exec.noPanic_bind (noPanic_okOr _ _) fun pending _ => ?_
  refine Exec.noPanic_bind (noPanic_okOr _ _) fun result _ => ?_
  refine Exec.noPanic_bind (noPanic_mapError result) fun response _ => ?_
  refine Exec.noPanic_bind (noPanic_ensure _ _) fun _ _ => ?_
  exact Exec.noPanic_bind (noPanic_okOr _ _) fun _ _ => Exec.noPanic_ok _

/-- A feed makes the worker panic exactly if it has an endpoint whose URL is not UTF-8. -/
theorem fetchFeed_panics_iff (host : Host) (val : ApiFeed) :
    ¬(fetchFeed host val).NoPanic ↔
      ∃ url, val.url = some url ∧ val.vpath.isSome ∧ fromUtf8 url = none := by
  unfold fetchFeed
  cases hurl : val.url with
  | none => simp [Exec.noPanic_ok, pure, Except.pure]
  | some url =>
    cases hvpath : val.vpath with
    | none => simp [Exec.noPanic_ok, pure, Except.pure]
    | some vpath =>
      cases hutf8 : fromUtf8 url with
      | none =>
        have hpanic : fetchHttpGetResult host url =
            .error (.panic "called `Result::unwrap()` on an `Err` value: Utf8Error") := by
          rw [fetchHttpGetResult, hutf8]
          rfl
        dsimp only
        rw [hpanic]
        exact iff_of_true (fun hnp => hnp _ rfl) ⟨url, rfl, rfl, hutf8⟩
      | some request =>
        refine iff_of_false (not_not.mpr ?_) ?_
        · refine Exec.noPanic_bind (Exec.noPanic_mapErr
            (noPanic_fetchHttpGetResult (by rw [hutf8]; rfl))) fun response _ => ?_
          refine Exec.noPanic_bind (noPanic_okOr _ _) fun resJson _ => ?_
          refine Exec.noPanic_bind (noPanic_okOr _ _) fun path _ => ?_
          refine Exec.noPanic_bind (noPanic_okOr _ _) fun found _ => ?_
          exact Exec.noPanic_bind (noPanic_okOr _ _) fun fval _ => Exec.noPanic_ok _
        · rintro ⟨url', heq, _, hnone⟩
          cases heq
          rw [hutf8] at hnone
          cases hnone

/-- A feed that fails has a path. -/
theorem vpath_of_error {host : Host} {val : ApiFeed} {failure : Failure String}
    (h : fetchFeed host val = .error failure) : val.vpath.isSome := by
  unfold fetchFeed at h
  cases hvpath : val.vpath with
  | some vpath => rfl
  | none =>
    rw [hvpath] at h
    cases hurl : val.url <;> rw [hurl] at h <;> cases h

theorem noPanic_error_iff {ε α : Type} {failure : Failure ε} :
    Exec.NoPanic (.error failure : Exec ε α) ↔ ∀ message, failure ≠ .panic message := by
  simp [Exec.NoPanic]

/-! ## The loop -/

variable {AccountId : Type} {cfg : Config AccountId}

/-- An entry of `ApiFeeds`. -/
abbrev FeedEntry (cfg : Config AccountId) :=
  (CreatorId AccountId × OracleKey cfg.strLimit) × ApiFeed

/-- Whether fetching or parsing a feed fails. -/
def feedFails (host : CreatorId AccountId × OracleKey cfg.strLimit → Host)
    (entry : FeedEntry cfg) : Bool :=
  match fetchFeed (host entry.1) entry.2 with
  | .ok _ => false
  | .error _ => true

/-- The keyed value of a feed that was fetched and parsed. -/
def fetched (host : CreatorId AccountId × OracleKey cfg.strLimit → Host)
    (entry : FeedEntry cfg) : Option (OracleKey cfg.strLimit × Int) :=
  match fetchFeed (host entry.1) entry.2 with
  | .ok (some ival) => some (entry.1.2, ival)
  | _ => none

/-- The feeds in the order in which the worker meets them. -/
def feedEntriesOf (s : State cfg) : List (FeedEntry cfg) := s.apiFeeds.iter cfg.storageHash

/-- The values of the feeds that were fetched and parsed. -/
def fetchedValues (host : CreatorId AccountId × OracleKey cfg.strLimit → Host) (s : State cfg) :
    List (OracleKey cfg.strLimit × Int) :=
  (feedEntriesOf s).filterMap (fetched host)

/-- The first failure that the loop meets. -/
def firstFailure (host : CreatorId AccountId × OracleKey cfg.strLimit → Host)
    (entries : List (FeedEntry cfg)) : Option (Failure String) :=
  entries.findSome? fun entry =>
    match fetchFeed (host entry.1) entry.2 with
    | .ok _ => none
    | .error failure => some failure

section Loop

variable {host : CreatorId AccountId × OracleKey cfg.strLimit → Host}

/-- The loop collects the fetched values until a feed fails. -/
theorem foldlM_collectFeed (entries : List (FeedEntry cfg))
    (values : List (OracleKey cfg.strLimit × Int)) :
    entries.foldlM (collectFeed host) values =
      match firstFailure host entries with
      | none => .ok (values ++ entries.filterMap (fetched host))
      | some failure => .error failure := by
  induction entries generalizing values with
  | nil => simp [firstFailure, pure, Except.pure]
  | cons entry entries ih =>
    obtain ⟨⟨creator, key⟩, val⟩ := entry
    rw [List.foldlM_cons]
    unfold collectFeed firstFailure
    rw [List.findSome?_cons, List.filterMap_cons, fetched]
    dsimp only
    cases hfetch : fetchFeed (host (creator, key)) val with
    | error failure => rfl
    | ok o =>
      cases o with
      -- a feed without an endpoint adds nothing
      | none => exact ih values
      | some ival =>
        have hcons := ih (values ++ [(key, ival)])
        rw [List.append_assoc] at hcons
        exact hcons

theorem firstFailure_eq_none {entries : List (FeedEntry cfg)} :
    firstFailure host entries = none ↔ ∀ entry ∈ entries, feedFails host entry = false := by
  rw [firstFailure, List.findSome?_eq_none_iff]
  refine forall₂_congr fun entry _ => ?_
  unfold feedFails
  cases fetchFeed (host entry.1) entry.2 <;> simp

/-- The first failure is that of the first feed that fails. -/
theorem firstFailure_eq_some {entries : List (FeedEntry cfg)} {failure : Failure String} :
    firstFailure host entries = some failure ↔
      ∃ entry, entries.find? (feedFails host) = some entry ∧
        fetchFeed (host entry.1) entry.2 = .error failure := by
  induction entries with
  | nil => simp [firstFailure]
  | cons entry entries ih =>
    unfold firstFailure at ih ⊢
    rw [List.findSome?_cons, List.find?_cons, feedFails]
    cases hfetch : fetchFeed (host entry.1) entry.2 with
    -- both searches go on
    | ok o => exact ih
    -- both end here
    | error failure' => simp [hfetch]

end Loop

/-! ## The worker -/

/-- The list that the transactions of the worker carry. -/
def submittedValues {K : Type} :
    Exec String (List (AccountId × List (K × Int))) → List (K × Int)
  | .ok ((_, values) :: _) => values
  | _ => []

@[simp] theorem submittedValues_error {K : Type} (failure : Failure String) :
    submittedValues (.error failure : Exec String (List (AccountId × List (K × Int)))) = [] := rfl

section Worker

variable {accounts : List AccountId} {host : CreatorId AccountId × OracleKey cfg.strLimit → Host}
  {s : State cfg}

/-- What the worker does, in terms of its feeds. -/
theorem fetchApiAndFeedData_eq (h : accounts ≠ []) :
    fetchApiAndFeedData accounts host s =
      match firstFailure host (feedEntriesOf s) with
      | none => .ok (if fetchedValues host s = [] then []
          else accounts.map fun account => (account, fetchedValues host s))
      | some failure => .error failure := by
  unfold fetchApiAndFeedData
  rw [ensure_of (List.length_pos_iff.mpr h), foldlM_collectFeed]
  unfold feedEntriesOf
  cases hfirst : firstFailure host (s.apiFeeds.iter cfg.storageHash) with
  | some failure => rfl
  | none =>
    show (if (fetchedValues host s).length > 0 then _ else _) = _
    by_cases hempty : fetchedValues host s = []
    · -- no value, no transaction
      simp [hempty, pure, Except.pure]
    · rw [if_pos (List.length_pos_iff.mpr hempty)]
      simp only [if_neg hempty]
      rfl

/-- Without an account it stops at once. -/
theorem fetchApiAndFeedData_nil :
    fetchApiAndFeedData [] host s = .error (.err
      "No local accounts available. Consider adding one via `author_insertKey` RPC.") := rfl

/-- It submits the values that it fetched if it has an account and no feed fails. -/
theorem submittedValues_of_no_failure (haccounts : accounts ≠ [])
    (h : ∀ entry ∈ feedEntriesOf s, feedFails host entry = false) :
    submittedValues (fetchApiAndFeedData accounts host s) = fetchedValues host s := by
  rw [fetchApiAndFeedData_eq haccounts, firstFailure_eq_none.mpr h]
  obtain ⟨account, rest, rfl⟩ := List.exists_cons_of_ne_nil haccounts
  by_cases hempty : fetchedValues host s = []
  · simp only [hempty]
    rfl
  · simp only [if_neg hempty]
    rfl

/-- With a failing feed it submits nothing. -/
theorem submittedValues_of_failure (h : ∃ entry ∈ feedEntriesOf s, feedFails host entry = true) :
    submittedValues (fetchApiAndFeedData accounts host s) = [] := by
  obtain ⟨entry, hentry, hfails⟩ := h
  by_cases haccounts : accounts = []
  · rw [haccounts, fetchApiAndFeedData_nil, submittedValues_error]
  · rw [fetchApiAndFeedData_eq haccounts]
    cases hfirst : firstFailure host (feedEntriesOf s) with
    | none =>
      rw [firstFailure_eq_none.mp hfirst entry hentry] at hfails
      cases hfails
    | some failure => rfl

/-- It panics unless it has no account or the first feed that fails has a URL in UTF-8. -/
theorem noPanic_fetchApiAndFeedData_iff :
    (fetchApiAndFeedData accounts host s).NoPanic ↔
      accounts = [] ∨ ∀ entry, (feedEntriesOf s).find? (feedFails host) = some entry →
        ∀ url, entry.2.url = some url → (fromUtf8 url).isSome := by
  by_cases haccounts : accounts = []
  · rw [haccounts, fetchApiAndFeedData_nil]
    exact iff_of_true (Exec.noPanic_err _) (.inl rfl)
  · rw [fetchApiAndFeedData_eq haccounts, or_iff_right haccounts]
    cases hfirst : firstFailure host (feedEntriesOf s) with
    | none =>
      -- no feed fails: there is none to ask for a URL
      refine iff_of_true (Exec.noPanic_ok _) fun entry hfind => ?_
      have hfails := List.find?_some hfind
      rw [firstFailure_eq_none.mp hfirst entry (List.mem_of_find?_eq_some hfind)] at hfails
      cases hfails
    | some failure =>
      -- the worker ends with the failure of the first feed that fails
      obtain ⟨entry, hfind, hfetch⟩ := firstFailure_eq_some.mp hfirst
      have hpanics := fetchFeed_panics_iff (host entry.1) entry.2
      rw [hfetch, noPanic_error_iff] at hpanics
      dsimp only
      rw [noPanic_error_iff]
      constructor
      · intro hnp entry' hfind' url hurl
        obtain rfl := Option.some.inj (hfind.symm.trans hfind')
        by_contra hnone
        refine hpanics.mpr ⟨url, hurl, vpath_of_error hfetch, ?_⟩ hnp
        rwa [Option.not_isSome_iff_eq_none] at hnone
      · intro hutf8
        by_contra hp
        obtain ⟨url, hurl, _, hnone⟩ := hpanics.mp hp
        have hsome := hutf8 entry hfind url hurl
        rw [hnone] at hsome
        cases hsome

/-- Whether it delivers from one content of `ApiFeeds`. -/
theorem delivers_iff :
    (fetchApiAndFeedData accounts host s).NoPanic ∧
        (submittedValues (fetchApiAndFeedData accounts host s)).Perm (fetchedValues host s) ↔
      (accounts ≠ [] ∧ ∀ entry ∈ feedEntriesOf s, feedFails host entry = false) ∨
        (fetchedValues host s = [] ∧ (accounts = [] ∨
          ∀ entry, (feedEntriesOf s).find? (feedFails host) = some entry →
            ∀ url, entry.2.url = some url → (fromUtf8 url).isSome)) := by
  rw [noPanic_fetchApiAndFeedData_iff]
  by_cases haccounts : accounts = []
  · rw [haccounts, fetchApiAndFeedData_nil, submittedValues_error, List.nil_perm]
    simp
  · by_cases hfails : ∃ entry ∈ feedEntriesOf s, feedFails host entry = true
    · -- nothing is submitted
      have hnot : ¬∀ entry ∈ feedEntriesOf s, feedFails host entry = false := by
        simpa using hfails
      rw [submittedValues_of_failure hfails, List.nil_perm]
      simp only [hnot, and_false, false_or]
      exact And.comm
    · -- all values are, and no feed is there to panic
      have hall : ∀ entry ∈ feedEntriesOf s, feedFails host entry = false := by
        simpa using hfails
      rw [submittedValues_of_no_failure haccounts hall]
      refine iff_of_true ⟨.inr fun entry hfind => ?_, List.Perm.refl _⟩ (.inl ⟨haccounts, hall⟩)
      exact absurd ⟨entry, List.mem_of_find?_eq_some hfind, List.find?_some hfind⟩ hfails

/-- Whether it submits the same from two contents with the same good feeds. -/
theorem submits_same_iff {s' : State cfg}
    (hperm : (fetchedValues host s).Perm (fetchedValues host s')) :
    (submittedValues (fetchApiAndFeedData accounts host s)).Perm
        (submittedValues (fetchApiAndFeedData accounts host s')) ↔
      accounts = [] ∨ fetchedValues host s = [] ∨
        ((∃ entry ∈ feedEntriesOf s, feedFails host entry = true) ↔
          ∃ entry ∈ feedEntriesOf s', feedFails host entry = true) := by
  -- what is submitted is all or nothing
  have hsubmitted : ∀ s : State cfg, submittedValues (fetchApiAndFeedData accounts host s) =
      if accounts = [] ∨ ∃ entry ∈ feedEntriesOf s, feedFails host entry = true then []
      else fetchedValues host s := by
    intro s
    split_ifs with hcases
    · rcases hcases with haccounts | hfails
      · rw [haccounts, fetchApiAndFeedData_nil, submittedValues_error]
      · exact submittedValues_of_failure hfails
    · obtain ⟨haccounts, hall⟩ := not_or.mp hcases
      exact submittedValues_of_no_failure haccounts (by simpa using hall)
  have hnil : fetchedValues host s = [] ↔ fetchedValues host s' = [] := by
    rw [← List.nil_perm, ← List.nil_perm]
    exact ⟨fun h => h.trans hperm, fun h => h.trans hperm.symm⟩
  rw [hsubmitted, hsubmitted]
  by_cases haccounts : accounts = []
  · simp [haccounts]
  · by_cases hs : ∃ entry ∈ feedEntriesOf s, feedFails host entry = true <;>
      by_cases hs' : ∃ entry ∈ feedEntriesOf s', feedFails host entry = true
    · -- nothing is submitted from either
      simp only [haccounts, hs, hs', if_true, iff_self, or_true, List.Perm.refl]
    · -- nothing from the first, so there must be nothing to submit from the second
      simp only [haccounts, hs, hs', false_or, if_true, if_false, List.nil_perm, iff_false,
        not_true, or_false, hnil]
    · simp only [haccounts, hs, hs', false_or, if_true, if_false, List.perm_nil, iff_true, or_false]
    · -- everything is submitted from both
      simp only [haccounts, hs, hs', false_or, if_false, iff_self, or_true, hperm]

/-- The worker delivers, that is, it does not panic and submits exactly one entry for each
    feed that was fetched and parsed, if and only if it has an account and no feed fails, or
    none is fetched and no failure panics before it gives up. Two contents of the storage
    with the same good feeds make it submit the same entries if and only if feeds fail in
    both or in neither, where there is anything to submit. -/
theorem worker_delivers_iff (accounts : List AccountId)
    (host : CreatorId AccountId × OracleKey cfg.strLimit → Host) :
    (∀ s : State cfg,
      (fetchApiAndFeedData accounts host s).NoPanic ∧
        (submittedValues (fetchApiAndFeedData accounts host s)).Perm (fetchedValues host s) ↔
      (accounts ≠ [] ∧ ∀ entry ∈ feedEntriesOf s, feedFails host entry = false) ∨
        (fetchedValues host s = [] ∧ (accounts = [] ∨
          ∀ entry, (feedEntriesOf s).find? (feedFails host) = some entry →
            ∀ url, entry.2.url = some url → (fromUtf8 url).isSome))) ∧
    ∀ s s' : State cfg, (fetchedValues host s).Perm (fetchedValues host s') →
      ((submittedValues (fetchApiAndFeedData accounts host s)).Perm
          (submittedValues (fetchApiAndFeedData accounts host s')) ↔
        accounts = [] ∨ fetchedValues host s = [] ∨
          ((∃ entry ∈ feedEntriesOf s, feedFails host entry = true) ↔
            ∃ entry ∈ feedEntriesOf s', feedFails host entry = true)) :=
  ⟨fun _ => delivers_iff, fun _ _ hperm => submits_same_iff hperm⟩

end Worker

/-! ## One bad feed -/

/-- Account 1 has a good feed and account 2 one whose URL is not UTF-8. -/
def badFeedOps : List (Op (sampleConfig fun _ _ _ prev => prev)) :=
  [.submitApi 1 (.signed 1) (BoundedVec.truncateFrom 32 [0x61]) [0x75] [],
   .submitApi 1 (.signed 2) (BoundedVec.truncateFrom 32 [0x62]) [0xff] []]

/-- The worker panics, and account 1's value is lost. -/
theorem bad_feed_silences :
    ¬(fetchApiAndFeedData [7] (fun _ => sampleHost [0x31])
        (run apply genesis badFeedOps)).NoPanic ∧
      ¬(submittedValues (fetchApiAndFeedData [7] (fun _ => sampleHost [0x31])
        (run apply genesis badFeedOps))).Perm
        (fetchedValues (fun _ => sampleHost [0x31]) (run apply genesis badFeedOps)) := by
  constructor
  · exact fun hnp => hnp "called `Result::unwrap()` on an `Err` value: Utf8Error" (by decide)
  · decide

/-- Without account 2's feed, the value of account 1 is submitted. -/
theorem worker_delivers_iff_sample :
    ¬(submittedValues (fetchApiAndFeedData [7] (fun _ => sampleHost [0x31])
        (run apply genesis badFeedOps))).Perm
      (submittedValues (fetchApiAndFeedData [7] (fun _ => sampleHost [0x31])
        (run apply genesis (badFeedOps.take 1)))) := by
  intro hperm
  have hsame := ((worker_delivers_iff [7] fun _ => sampleHost [0x31]).2
    (run apply genesis badFeedOps) (run apply genesis (badFeedOps.take 1)) (by decide)).mp hperm
  exact absurd hsame (by decide)

end Paraxiom.ParaOracle
