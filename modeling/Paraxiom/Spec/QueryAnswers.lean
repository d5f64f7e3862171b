import Paraxiom.Spec.OneFeedPerBlock

/-!
# Answers to queries

A parachain that queries a key is sent the published value. The messages that went out in a
run are the answers to its successful queries, in their order, and what each of them says was
fed for the key before by an accepted feed: the pallet selects values, and invents none. This
holds with any quorum, expired or not, wrapped or not.
-/

namespace Paraxiom.ParaOracle

open Scale OrderStatistic Transactional

variable {AccountId : Type} [DecidableEq AccountId] {cfg : Config AccountId}

/-! ## Values that come from somewhere -/

/-- The raw values and the published values of each key satisfy `P`. -/
structure Sourced (P : OracleKey cfg.strLimit → TimestampedValue → Prop) (s : State cfg) :
    Prop where
  raw : ∀ c k x, s.rawValues.lookup (c, k) = some x → P k x
  published : ∀ k x, s.values k = some x → P k x

/-- The combination selects one of the values it is given, or the previous one. -/
theorem defaultCombineData_selects {K : Type} {selectNth : Selection TimestampedValue.value}
    {minimumCount : UInt32} {expiresIn now : U128} {key : K} {values : List TimestampedValue}
    {prevValue : Option TimestampedValue} {x : TimestampedValue}
    (h : defaultCombineData selectNth minimumCount expiresIn now key values prevValue = some x) :
    x ∈ values ∨ prevValue = some x := by
  unfold defaultCombineData at h
  dsimp only at h
  split at h
  · exact .inr h
  · obtain rfl := Option.some.inj h
    exact .inl (List.mem_of_mem_filter (selectNth.select_mem _ _))

namespace Sourced

variable {P : OracleKey cfg.strLimit → TimestampedValue → Prop} {s : State cfg}
  {selectNth : Selection TimestampedValue.value} {minimumCount : UInt32} {expiresIn : U128}

/-- A weaker origin is one too. -/
theorem mono {Q : OracleKey cfg.strLimit → TimestampedValue → Prop} (h : Sourced P s)
    (himp : ∀ k x, P k x → Q k x) : Sourced Q s :=
  ⟨fun c k x hx => himp k x (h.raw c k x hx), fun k x hx => himp k x (h.published k x hx)⟩

/-- What is combined comes from where the raw and published values come from. -/
theorem combined (h : Sourced P s)
    (hcombine : cfg.combineData = defaultCombineData selectNth minimumCount expiresIn) {now : U128}
    {key : OracleKey cfg.strLimit} {x : TimestampedValue}
    (hx : ParaOracle.combined now key s = some x) : P key x := by
  unfold ParaOracle.combined at hx
  rw [hcombine] at hx
  -- the median is one of the raw values; without a quorum the published value stays
  rcases defaultCombineData_selects hx with hmem | hprev
  · obtain ⟨c, hlookup⟩ := mem_readRawValues.mp hmem
    exact h.raw c key x hlookup
  · exact h.published key x hprev

/-- An entry publishes the new value, one that was there, or nothing new. -/
theorem feedEntry (h : Sourced P s)
    (hcombine : cfg.combineData = defaultCombineData selectNth minimumCount expiresIn) {now : U128}
    (cid : CreatorId AccountId) {key : OracleKey cfg.strLimit} {value : Int}
    (hnew : P key ⟨value, now⟩) : Sourced P (ParaOracle.feedEntry now cid s (key, value)) := by
  have hraw : ∀ c k x, (s.insertRaw cid key ⟨value, now⟩).rawValues.lookup (c, k) = some x →
      P k x := by
    intro c k x hx
    rw [lookup_insertRaw] at hx
    split_ifs at hx with hk
    · -- the raw value that the entry wrote
      obtain rfl := Option.some.inj hx
      exact hk.2 ▸ hnew
    · exact h.raw c k x hx
  refine ⟨fun c k x hx => hraw c k x (by rwa [feedEntry_rawValues] at hx), fun k x hx => ?_⟩
  by_cases hk : k = key
  · -- the key is combined anew, over all raw values with the new one
    subst hk
    rw [feedEntry_values_self] at hx
    rcases Option.or_eq_some_iff.mp hx with hx | ⟨_, hx⟩
    · exact Sourced.combined ⟨hraw, h.published⟩ hcombine hx
    · exact h.published k x hx
  · rw [feedEntry_values_of_ne _ _ _ hk] at hx
    exact h.published k x hx

/-- And so does a whole feed. -/
theorem feedEntries (h : Sourced P s)
    (hcombine : cfg.combineData = defaultCombineData selectNth minimumCount expiresIn) {now : U128}
    (cid : CreatorId AccountId) {values : List (OracleKey cfg.strLimit × Int)}
    (hnew : ∀ e ∈ stamped now values, P e.1 e.2) :
    Sourced P (ParaOracle.feedEntries now cid values s) := by
  induction values generalizing s with
  | nil => exact h
  | cons e values ih =>
    obtain ⟨hhead, htail⟩ := List.forall_mem_cons.mp hnew
    exact ih (h.feedEntry hcombine cid hhead) htail

end Sourced

/-! ## What was fed -/

/-- One of the events is an accepted feed with the entry. -/
def FedIn (past : List (OpEvent cfg)) (k : OracleKey cfg.strLimit) (x : TimestampedValue) : Prop :=
  ∃ e ∈ past, ∃ f, acceptedFeed e = some f ∧ (k, x) ∈ f.entries

omit [DecidableEq AccountId] in
/-- What was fed stays fed. -/
theorem FedIn.append {past : List (OpEvent cfg)} {k : OracleKey cfg.strLimit}
    {x : TimestampedValue} (h : FedIn past k x) (later : List (OpEvent cfg)) :
    FedIn (past ++ later) k x := by
  obtain ⟨e, he, hfed⟩ := h
  exact ⟨e, List.mem_append_left _ he, hfed⟩

/-- All values of a state reached were fed in its history. -/
theorem sourced_run {selectNth : Selection TimestampedValue.value} {minimumCount : UInt32}
    {expiresIn : U128}
    (hcombine : cfg.combineData = defaultCombineData selectNth minimumCount expiresIn)
    (ops : List (Op cfg)) :
    Sourced (FedIn (history apply genesis ops)) (run apply (genesis : State cfg) ops) := by
  have hinit : Sourced (FedIn []) (genesis : State cfg) :=
    ⟨fun _ _ _ hx => (by cases hx), fun _ _ hx => (by cases hx)⟩
  refine history_induction (P := fun past s => Sourced (FedIn past) s) (G := fun _ => True) hinit
    (fun past s op _ h => ?_) ops
    fun _ _ => trivial
  have hpast := h.mono fun k x hx => hx.append [event apply s op]
  have hframe := step_frame op s
  split at hframe
  · -- nothing was accepted, and no value changed
    exact ⟨hframe.1 ▸ hpast.raw, hframe.2 ▸ hpast.published⟩
  · rename_i f hf
    -- the loop of an accepted feed: its entries are in the history now
    obtain ⟨values, s₁, hentries, hraw₁, hvalues₁, hraw, hvalues⟩ := hframe
    have hloop := Sourced.feedEntries (s := s₁) ⟨hraw₁ ▸ hpast.raw, hvalues₁ ▸ hpast.published⟩
      hcombine f.creator fun e (he : e ∈ stamped f.moment values) =>
        ⟨_, List.mem_append_right _ (List.mem_singleton_self _), f, hf, hentries ▸ he⟩
    exact ⟨hraw ▸ hloop.raw, hvalues ▸ hloop.published⟩

/-! ## What was sent -/

/-- The message that an event sends: the published value, to the parachain that asked. -/
def answer (e : OpEvent cfg) : Option (ParaId × FeedBack) :=
  match e.op, e.result with
  | .xcmQueryData (.siblingParachain paraId) key, .ok _ =>
    (e.pre.values key).map fun val => (paraId, ⟨key.toList, val.value⟩)
  | _, _ => none

/-- A feed sends nothing. -/
@[simp] theorem feedEntries_sent (now : U128) (cid : CreatorId AccountId)
    (values : List (OracleKey cfg.strLimit × Int)) (s : State cfg) :
    (feedEntries now cid values s).sent = s.sent :=
  feedEntries_frame (f := State.sent) (fun s entry => by
    unfold feedEntry
    dsimp only
    split <;> rfl) values

omit [DecidableEq AccountId] in
/-- A query that succeeds sends the published value. -/
theorem xcmQueryData_eq_ok {origin : Origin AccountId} {key : OracleKey cfg.strLimit}
    {s s' : State cfg} (h : xcmQueryData origin key s = .ok s') :
    ∃ paraId val, origin = .siblingParachain paraId ∧ s.values key = some val ∧
      s' = { s with sent := s.sent ++ [(paraId, ⟨key.toList, val.value⟩)] } := by
  unfold xcmQueryData at h
  obtain ⟨paraId, horigin, h⟩ := Exec.bind_eq_ok.mp h
  split at h
  · rename_i val hval
    obtain ⟨_, _, h⟩ := Exec.bind_eq_ok.mp h
    exact ⟨paraId, val, ensureSiblingPara_eq_ok.mp horigin, hval, (Exec.pure_eq_ok.mp h).symm⟩
  · cases h

/-- An operation that succeeds and is no query sends nothing. -/
theorem sent_of_not_query {op : Op cfg} {s s' : State cfg} (h : dispatch op s = .ok s')
    (hquery : ∀ origin key, op ≠ .xcmQueryData origin key) : s'.sent = s.sent := by
  cases hfeed : op.feed? with
  | some f =>
    obtain ⟨values, _, hdispatch⟩ := dispatch_of_feed hfeed
    rw [hdispatch, feed_eq] at h
    split_ifs at h
    obtain rfl := Except.ok.inj h
    exact feedEntries_sent ..
  | none =>
    cases op with
    | xcmQueryData origin key => exact absurd rfl (hquery origin key)
    -- a feed that is none has the wrong origin, and fails
    | feedData now origin values =>
      obtain ⟨who, hwho, _⟩ := Exec.bind_eq_ok.mp h
      obtain rfl := ensureSigned_eq_ok.mp hwho
      cases hfeed
    | xcmFeedData now origin values =>
      obtain ⟨id, hid, _⟩ := Exec.bind_eq_ok.mp h
      obtain rfl := ensureSiblingPara_eq_ok.mp hid
      cases hfeed
    | submitApi | xcmSubmitApi =>
      obtain ⟨_, _, h⟩ := Exec.bind_eq_ok.mp h
      obtain rfl := Except.ok.inj h
      rfl
    | removeApi | xcmRemoveApi =>
      obtain ⟨_, _, h⟩ := Exec.bind_eq_ok.mp h
      unfold doRemoveApi at h
      dsimp only at h
      split at h
      · obtain ⟨_, _, h⟩ := Exec.bind_eq_ok.mp h
        obtain rfl := Exec.pure_eq_ok.mp h
        rfl
      · cases h
    | onFinalize =>
      obtain rfl := Except.ok.inj h
      rfl

/-- An event sends its answer. -/
theorem sent_step (s : State cfg) (op : Op cfg) :
    (step apply s op).sent = s.sent ++ (answer (event apply s op)).toList := by
  cases hok : dispatch op s with
  | error f =>
    have hresult : (event apply s op).result = .error f :=
      event_result_eq_error.mpr (by rw [apply, hok]; rfl)
    -- a call that failed was answered by its error alone
    have hanswer : answer (event apply s op) = none := by
      unfold answer
      rw [hresult]
      split <;> simp_all
    rw [step_of_dispatch_error hok, hanswer, Option.toList_none, List.append_nil]
  | ok s' =>
    have hresult : (event apply s op).result = .ok () :=
      event_result_eq_ok.mpr (by rw [step_of_dispatch_ok hok, apply, hok]; rfl)
    rw [step_of_dispatch_ok hok]
    by_cases hquery : ∃ origin key, op = .xcmQueryData origin key
    · obtain ⟨origin, key, rfl⟩ := hquery
      obtain ⟨paraId, val, rfl, hval, rfl⟩ := xcmQueryData_eq_ok hok
      unfold answer
      simp [hresult, hval]
    · have hanswer : answer (event apply s op) = none := by
        unfold answer
        split
        · rename_i heq _
          exact absurd ⟨_, _, heq⟩ hquery
        · rfl
      rw [hanswer, Option.toList_none, List.append_nil]
      exact sent_of_not_query hok fun origin key heq => hquery ⟨origin, key, heq⟩

/-- The messages sent in a run are the answers to its queries in their order, and each answers
    its key with a value that an accepted feed fed for this key before the query. -/
theorem query_answers_are_fed {selectNth : Selection TimestampedValue.value}
    {minimumCount : UInt32} {expiresIn : U128}
    (hcombine : cfg.combineData = defaultCombineData selectNth minimumCount expiresIn)
    (ops : List (Op cfg)) :
    (run apply (genesis : State cfg) ops).sent = (history apply genesis ops).filterMap answer ∧
      ∀ before e later paraId key value, history apply (genesis : State cfg) ops =
          before ++ e :: later → answer e = some (paraId, ⟨key, value⟩) →
        ∃ k x, k.toList = key ∧ x.value = value ∧ FedIn before k x := by
  constructor
  · refine history_induction (P := fun past s => s.sent = past.filterMap answer)
      (G := fun _ => True) rfl (fun past s op _ h => ?_) ops fun _ _ => trivial
    rw [sent_step, h, List.filterMap_append, List.filterMap_cons, List.filterMap_nil]
    cases answer (event apply s op) <;> rfl
  · -- the value that is sent is published when the query is made
    intro before e later paraId key value hsplit hanswer
    obtain ⟨opsBefore, op, _, _, rfl, rfl, _⟩ := history_split hsplit
    unfold answer at hanswer
    split at hanswer
    · rename_i k _ _ _
      obtain ⟨x, hx, heq⟩ := Option.map_eq_some_iff.mp hanswer
      obtain ⟨_, hback⟩ := Prod.mk.inj heq
      obtain ⟨rfl, rfl⟩ := FeedBack.mk.inj hback
      exact ⟨k, x, rfl, rfl, (sourced_run hcombine opsBefore).published k x hx⟩
    · cases hanswer

/-- A parachain asks after two feeds, and is sent the greater value, which is the median. -/
theorem query_answers_are_fed_sample :
    (run apply (genesis : State sampleMedianConfig)
      [.feedData 5 (.signed 1) [(sampleKey, 10)], .feedData 5 (.signed 2) [(sampleKey, 20)],
        .xcmQueryData (.siblingParachain 2000) sampleKey]).sent =
      [(2000, ⟨[0x61], 20⟩)] := by
  have hcombine : sampleMedianConfig.combineData = defaultCombineData (Selection.ofSort _) 2 100 :=
    rfl
  exact (query_answers_are_fed hcombine _).1.trans (by decide)

end Paraxiom.ParaOracle
