import Paraxiom.ForStd.Transactional
import Paraxiom.Spec.OracleSteps

/-!
# Request ids

`request` draws its id from a seed out of which the nonce has been dropped, so the id
depends on the block alone. `idsIdentify_iff` says what this amounts to: the ids of a run
identify its requests exactly when no two requests that meet the guards of `request` fall
in one block.
-/

namespace Paraxiom.Runtime

open Scale Transactional

variable {cfg : Oracle.Config} {AccountId : Type}

/-- An event of the chain. -/
abbrev ChainEvent (cfg : Oracle.Config) (AccountId : Type) :=
  Transactional.Event (Chain cfg AccountId) (Call cfg AccountId) (Failure DispatchError) Unit

/-! ## When a request is accepted -/

/-- The guards of `request`, on the chain it is submitted to. -/
def MeetsGuards (c : Chain cfg AccountId) (origin : Origin AccountId)
    (key : Registry.RegistryFeedKey cfg.registry) (nonce : U128) : Prop :=
  ∃ who feed name len, origin = .signed who ∧ c.registry.apiFeeds who key = some feed ∧
    feed.status = .active ∧
    (Oracle.requestMessage (Oracle.drawRequestId cfg c.blockNumber nonce) feed).length ≤ 2048 ∧
    Oracle.selectName cfg c.anchor = some name ∧
    Anchor.queueLen cfg.anchor name c.anchor = (.ok len : Exec Anchor.Error UInt32) ∧
    len < cfg.anchor.queueCapacity

/-- A request goes through exactly when it meets the guards. -/
theorem exists_request_eq_ok {c : Chain cfg AccountId} {origin : Origin AccountId}
    {key : Registry.RegistryFeedKey cfg.registry} {nonce : U128} :
    (∃ s', Oracle.request c.blockNumber c.registry origin key nonce (c.anchor, c.oracle) = .ok s') ↔
      MeetsGuards c origin key nonce := by
  constructor
  · rintro ⟨s', h⟩
    obtain ⟨who, feed, data, name, id, horigin, hfeed, hactive, hdata, hname, hpush, _⟩ :=
      Oracle.request_eq_ok.mp h
    obtain ⟨_, len, hlen, hlt⟩ := (Anchor.exists_pushMessage_eq_ok data).mp ⟨id, _, hpush⟩
    exact ⟨who, feed, name, len, horigin, hfeed, hactive, (BoundedVec.tryFrom_eq_some hdata).2,
      hname, hlen, hlt⟩
  · rintro ⟨who, feed, name, len, horigin, hfeed, hactive, hdata, hname, hlen, hlt⟩
    -- the name picked is one of the claimed names
    have hclaimed : (c.anchor.submitterByNames.lookup name).isSome :=
      StorageMap.mem_iterKeys.mp (List.mem_of_getLast? hname)
    obtain ⟨id, anchor, hpush⟩ := (Anchor.exists_pushMessage_eq_ok
      ⟨_, hdata⟩).mpr ⟨hclaimed, len, hlen, hlt⟩
    exact ⟨(anchor, _), Oracle.request_eq_ok.mpr ⟨who, feed, ⟨_, hdata⟩, name, id, horigin, hfeed,
      hactive, BoundedVec.tryFrom_toList (⟨_, hdata⟩ : Anchor.ValueBytes), hname, hpush, rfl⟩⟩

/-- The id that a request drew and the entry it filed, if the event is a request that was
    accepted. -/
def issued (e : ChainEvent cfg AccountId) :
    Option (Oracle.RequestId × Oracle.Request cfg AccountId) :=
  match e.op, e.result with
  | .request (.signed who) key nonce, .ok _ => do
    let feed ← e.pre.registry.apiFeeds who key
    let requestId := Oracle.drawRequestId cfg e.pre.blockNumber nonce
    let data ← BoundedVec.tryFrom 2048 (Oracle.requestMessage requestId feed)
    return (requestId, ⟨key, who, nonce, data⟩)
  | _, _ => none

/-- What an accepted request did: from `c` to `c'`, under the id `requestId`. -/
structure Issues (c c' : Chain cfg AccountId) (requestId : Oracle.RequestId)
    (request : Oracle.Request cfg AccountId) : Prop where
  requestId_eq : requestId = Oracle.drawRequestId cfg c.blockNumber request.nonce
  message : ∃ feed, c.registry.apiFeeds request.caller request.registryFeedKey = some feed ∧
    feed.status = .active ∧ request.requestedData.toList = Oracle.requestMessage requestId feed
  pushed : ∃ name index, Oracle.selectName cfg c.anchor = some name ∧
    Anchor.pushMessage cfg.anchor name request.requestedData c.anchor = .ok (index, c'.anchor)
  filed : c'.oracle.feedRequests = Function.update c.oracle.feedRequests requestId (some request)
  feedData_eq : c'.oracle.feedData = c.oracle.feedData
  registry_eq : c'.registry = c.registry
  blockNumber_eq : c'.blockNumber = c.blockNumber

section Steps

variable [DecidableEq AccountId] [Codec AccountId]

/-- What an accepted request issued, and under which name it went out. -/
theorem issues_of_issued {c : Chain cfg AccountId} {o : Call cfg AccountId}
    {requestId : Oracle.RequestId} {request : Oracle.Request cfg AccountId}
    (h : issued (event apply c o) = some (requestId, request)) :
    o = .request (.signed request.caller) request.registryFeedKey request.nonce ∧
      Issues c (step apply c o) requestId request := by
  unfold issued at h
  split at h
  · rename_i who key nonce u hop hres
    rw [event_op] at hop
    subst hop
    obtain ⟨anchor, oracle, hok, hstep⟩ := apply_request_eq_ok.mp (event_result_eq_ok.mp hres)
    obtain ⟨who', feed, data, name, index, horigin, hfeed, hactive, hdata, hname, hpush, horacle⟩ :=
      Oracle.request_eq_ok.mp hok
    obtain rfl := Origin.signed.inj horigin
    simp only [event_pre, hfeed, hdata, bind, Option.bind, pure, Option.some.injEq,
      Prod.mk.injEq] at h
    obtain ⟨rfl, rfl⟩ := h
    rw [hstep]
    refine ⟨rfl, ⟨rfl, ⟨feed, hfeed, hactive, ?_⟩, ⟨name, index, hname, hpush⟩, ?_, ?_, rfl, rfl⟩⟩
    · -- the message fits, so the bytes filed are the message
      obtain ⟨rfl, hle⟩ := BoundedVec.tryFrom_eq_some hdata
      exact BoundedVec.truncateFrom_toList_of_le hle
    · rw [show oracle = _ from horacle]; rfl
    · rw [show oracle = _ from horacle]; rfl
  · exact nomatch h

/-- A request is accepted exactly when it meets the guards. -/
theorem issued_isSome_iff {c : Chain cfg AccountId} {o : Call cfg AccountId} :
    (issued (event apply c o)).isSome ↔
      ∃ origin key nonce, o = .request origin key nonce ∧ MeetsGuards c origin key nonce := by
  constructor
  · intro h
    obtain ⟨⟨requestId, request⟩, h⟩ := Option.isSome_iff_exists.mp h
    obtain ⟨rfl, _⟩ := issues_of_issued h
    unfold issued at h
    split at h
    · rename_i who key nonce u hop hres
      rw [event_op] at hop
      obtain ⟨anchor, oracle, hok, _⟩ := apply_request_eq_ok.mp (event_result_eq_ok.mp hres)
      exact ⟨_, _, _, rfl, exists_request_eq_ok.mp ⟨_, hok⟩⟩
    · exact nomatch h
  · rintro ⟨origin, key, nonce, rfl, hguards⟩
    obtain ⟨⟨anchor, oracle⟩, hok⟩ := exists_request_eq_ok.mpr hguards
    obtain ⟨who, feed, data, _, _, rfl, hfeed, _, hdata, _⟩ := Oracle.request_eq_ok.mp hok
    have happly : apply (.request (.signed who) key nonce) c =
        .ok ((), { c with anchor, oracle }) :=
      apply_request_eq_ok.mpr ⟨anchor, oracle, hok, rfl⟩
    have hres : (event apply c (.request (.signed who) key nonce)).result = .ok () :=
      event_result_eq_ok.mpr (by rw [happly, step_of_ok happly])
    simp [issued, hres, hfeed, hdata]

/-- No other call changes the requests on file. -/
theorem feedRequests_step {c : Chain cfg AccountId} {o : Call cfg AccountId}
    (h : issued (event apply c o) = none) :
    (step apply c o).oracle.feedRequests = c.oracle.feedRequests := by
  cases hres : apply o c with
  | error f => rw [step_of_error hres]
  | ok p =>
    obtain ⟨u, c'⟩ := p
    rw [step_of_ok hres]
    rcases apply_eq_ok_cases hres with ⟨_, _, _, rfl, _, rfl⟩ |
      ⟨origin, name, tx, nonce, anchor, oracle, rfl, hroll, rfl⟩ |
      ⟨origin, key, nonce, anchor, oracle, rfl, hok, rfl⟩ | ⟨_, _, horacle, _⟩
    · rfl
    · -- the answers in a rollup file data, and no request
      obtain ⟨who, _, _, _, s₁, hloop, hs'⟩ := Anchor.rollup_eq_ok.mp hroll
      obtain ⟨_, rfl⟩ := Prod.mk.inj hs'
      refine Anchor.foldlM_execAction_invariant
        (I := fun r : Oracle.State cfg AccountId => r.feedRequests = c.oracle.feedRequests) ?_ hloop
        rfl
      intro data r r' hr hkeep
      obtain ⟨_, _, _, _, _, rfl⟩ := Oracle.onResponse_eq_ok.mp hr
      exact hkeep
    · -- a request that is accepted is issued
      have hsome :=
        issued_isSome_iff.mpr ⟨origin, key, nonce, rfl, exists_request_eq_ok.mp ⟨_, hok⟩⟩
      rw [h] at hsome
      exact nomatch hsome
    · rw [horacle]

end Steps

/-! ## Ids over a run -/

/-- The subjects that a request of the block hands to `random`. -/
def Queried (cfg : Oracle.Config) (block : BlockNumber) (subject : Bytes) : Prop :=
  subject = [] ∨ subject = encode (Oracle.randomSeed cfg block)

/-- Up to block `last`, `random` never maps two different queries to one value. -/
def CollisionFree (cfg : Oracle.Config) (last : BlockNumber) : Prop :=
  ∀ b b' subject subject', b ≤ last → b' ≤ last → Queried cfg b subject →
    Queried cfg b' subject' → (cfg.random b subject).1 = (cfg.random b' subject').1 →
    b = b' ∧ subject = subject'

/-- The ids of a run identify its requests: no two accepted requests drew the same id, and
    the entry that a request filed under its id, with the bytes it pushed, stays there. -/
structure IdsIdentify (past : List (ChainEvent cfg AccountId)) : Prop where
  distinct : past.Pairwise fun e e' => ∀ requestId r r',
    issued e = some (requestId, r) → issued e' ≠ some (requestId, r')
  kept : ∀ before e later requestId r, past = before ++ e :: later →
    issued e = some (requestId, r) →
    (∃ name index, Anchor.pushMessage cfg.anchor name r.requestedData e.pre.anchor =
      .ok (index, e.post.anchor)) ∧
    (∃ feed : Registry.ApiFeed cfg.registry,
      r.requestedData.toList = Oracle.requestMessage requestId feed) ∧
    ∀ s ∈ e.post :: later.map Event.post, s.oracle.feedRequests requestId = some r

/-- An event is a request that met the guards of `request`. -/
def GuardedRequest (e : ChainEvent cfg AccountId) : Prop :=
  ∃ origin key nonce, e.op = .request origin key nonce ∧ MeetsGuards e.pre origin key nonce

section Runs

variable [DecidableEq AccountId] [Codec AccountId]

/-- No call goes back to an earlier block. -/
theorem blockNumber_le_step (c : Chain cfg AccountId) (o : Call cfg AccountId) :
    c.blockNumber ≤ (step apply c o).blockNumber := by
  cases hres : apply o c with
  | error f => rw [step_of_error hres]
  | ok p =>
    obtain ⟨u, c'⟩ := p
    rw [step_of_ok hres]
    rcases apply_eq_ok_cases hres with ⟨_, _, _, _, _, rfl⟩ | ⟨_, _, _, _, _, _, _, _, rfl⟩ |
      ⟨_, _, _, _, _, _, _, rfl⟩ | ⟨_, _, _, hle⟩
    · exact Nat.le_refl c.blockNumber
    · exact Nat.le_refl c.blockNumber
    · exact Nat.le_refl c.blockNumber
    · exact hle

/-- Nor does a run. -/
theorem blockNumber_le_run (c : Chain cfg AccountId) (calls : List (Call cfg AccountId)) :
    c.blockNumber ≤ (run apply c calls).blockNumber :=
  run_invariant (I := fun s => c.blockNumber ≤ s.blockNumber)
    (fun s o h => Nat.le_trans h (blockNumber_le_step s o)) (Nat.le_refl _) calls

/-- A request that is never drawn again keeps its entry. -/
theorem feedRequests_kept {c : Chain cfg AccountId} {requestId : Oracle.RequestId}
    {r : Oracle.Request cfg AccountId} (h : c.oracle.feedRequests requestId = some r)
    (calls : List (Call cfg AccountId))
    (hfresh : ∀ e ∈ history apply c calls, ∀ r', issued e ≠ some (requestId, r')) :
    ∀ s ∈ (history apply c calls).map Event.post, s.oracle.feedRequests requestId = some r := by
  induction calls generalizing c with
  | nil => exact nofun
  | cons o calls ih =>
    have hstep : (step apply c o).oracle.feedRequests requestId = some r := by
      cases hissued : issued (event apply c o) with
      | none => rw [feedRequests_step hissued, h]
      | some p =>
        obtain ⟨id, r'⟩ := p
        -- another request files under another id
        have hne : requestId ≠ id := fun he =>
          hfresh _ List.mem_cons_self r' (he ▸ hissued)
        rw [(issues_of_issued hissued).2.filed, Function.update_of_ne hne, h]
    simp only [history_cons, List.map_cons, List.mem_cons, forall_eq_or_imp]
    exact ⟨hstep, ih hstep fun e he => hfresh e (List.mem_cons_of_mem _ he)⟩

/-- The id of an accepted request depends on its block alone. -/
theorem requestId_of_issued {c₀ : Chain cfg AccountId} {calls : List (Call cfg AccountId)}
    {e : ChainEvent cfg AccountId} (he : e ∈ history apply c₀ calls) {requestId : Oracle.RequestId}
    {r : Oracle.Request cfg AccountId} (h : issued e = some (requestId, r)) :
    requestId =
      (cfg.random e.pre.blockNumber (encode (Oracle.randomSeed cfg e.pre.blockNumber))).1 := by
  obtain ⟨before, o, after, rfl, rfl⟩ := mem_history he
  exact (issues_of_issued h).2.requestId_eq

/-- In a run, the requests that meet the guards are the accepted ones. -/
theorem guardedRequest_iff {c₀ : Chain cfg AccountId} {calls : List (Call cfg AccountId)}
    {e : ChainEvent cfg AccountId} (he : e ∈ history apply c₀ calls) :
    GuardedRequest e ↔ (issued e).isSome := by
  obtain ⟨before, o, after, rfl, rfl⟩ := mem_history he
  exact issued_isSome_iff.symm

/-- From any chain, with a randomness that never answers two different queries alike: the
    ids of a run identify its requests if and only if no two requests that meet the guards
    fall in one block. -/
theorem idsIdentify_iff (c₀ : Chain cfg AccountId) (calls : List (Call cfg AccountId))
    (hfree : CollisionFree cfg (run apply c₀ calls).blockNumber) :
    IdsIdentify (history apply c₀ calls) ↔
      (history apply c₀ calls).Pairwise fun e e' =>
        GuardedRequest e → GuardedRequest e' → e.pre.blockNumber ≠ e'.pre.blockNumber := by
  have hblock : ∀ e ∈ history apply c₀ calls,
      e.pre.blockNumber ≤ (run apply c₀ calls).blockNumber := by
    intro e he
    obtain ⟨before, o, after, rfl, rfl⟩ := mem_history he
    rw [event_pre, run_append]
    exact blockNumber_le_run _ _
  constructor
  · intro h
    refine h.distinct.imp_of_mem fun {e e'} he he' hdistinct hg hg' hsame => ?_
    obtain ⟨⟨id, r⟩, hr⟩ := Option.isSome_iff_exists.mp ((guardedRequest_iff he).mp hg)
    obtain ⟨⟨id', r'⟩, hr'⟩ := Option.isSome_iff_exists.mp ((guardedRequest_iff he').mp hg')
    -- both ids were drawn in the same block, whatever their nonces
    have hids : id' = id := by
      rw [requestId_of_issued he hr, requestId_of_issued he' hr', hsame]
    exact hdistinct id r r' hr (hids ▸ hr')
  · intro h
    -- the same id would mean the same query to `random`, made in the same block
    have hdistinct : (history apply c₀ calls).Pairwise fun e e' => ∀ requestId r r',
        issued e = some (requestId, r) → issued e' ≠ some (requestId, r') := by
      refine h.imp_of_mem fun {e e'} he he' hapart id r r' hr hr' => ?_
      refine hapart ((guardedRequest_iff he).mpr (by rw [hr]; rfl))
        ((guardedRequest_iff he').mpr (by rw [hr']; rfl)) ?_
      exact (hfree _ _ _ _ (hblock e he) (hblock e' he') (.inr rfl) (.inr rfl)
        ((requestId_of_issued he hr).symm.trans (requestId_of_issued he' hr'))).1
    refine ⟨hdistinct, fun before e later id r hsplit hr => ?_⟩
    have hlater := (List.pairwise_cons.mp (List.pairwise_append.mp (hsplit ▸ hdistinct)).2.1).1
    obtain ⟨calls₁, o, calls₂, _, _, rfl, rfl⟩ := history_split hsplit
    have hissues := (issues_of_issued hr).2
    obtain ⟨name, index, _, hpush⟩ := hissues.pushed
    obtain ⟨feed, _, _, hmessage⟩ := hissues.message
    have hfiled : (step apply (run apply c₀ calls₁) o).oracle.feedRequests id = some r := by
      rw [hissues.filed, Function.update_self]
    refine ⟨⟨name, index, hpush⟩, ⟨feed, hmessage⟩, ?_⟩
    intro s hs
    rcases List.mem_cons.mp hs with rfl | hs
    · exact hfiled
    · exact feedRequests_kept hfiled calls₂ (fun e he r' => hlater e he id r r' hr) s hs

end Runs

/-! ## Two requests -/

/-- A chain on which every account has an active feed under every key. -/
def sampleChain : Chain Oracle.sampleConfig UInt32 where
  blockNumber := 0
  registry := ⟨fun _ _ => some ⟨0, ⟨[], by decide⟩, ⟨[], by decide⟩, .active⟩, []⟩
  anchor := Anchor.genesis
  oracle := Oracle.genesis

/-- The sample randomness spells the block number out, so it has no collision. -/
theorem sampleConfig_collisionFree {last : BlockNumber} (h : last < 256 ^ 31) :
    CollisionFree Oracle.sampleConfig last := by
  intro b b' subject subject' hb hb' hq hq' heq
  have hbytes := congrArg FixedBytes.toList heq
  simp only [Oracle.sampleConfig, List.cons.injEq] at hbytes
  -- the first byte tells the two queries of a block apart, the others spell the block
  obtain ⟨hflag, hblock⟩ := hbytes
  have hbb : b = b' := by
    rw [← readLE_writeLE_of_lt (Nat.lt_of_le_of_lt hb h),
      ← readLE_writeLE_of_lt (Nat.lt_of_le_of_lt hb' h), hblock]
  subst hbb
  have hseed : encode (Oracle.randomSeed Oracle.sampleConfig b) ≠ [] := by
    intro hnil
    exact absurd (congrArg List.length hnil) (by simp [encode])
  refine ⟨rfl, ?_⟩
  rcases hq with rfl | rfl <;> rcases hq' with rfl | rfl
  · rfl
  · rw [if_pos rfl, if_neg hseed] at hflag
    exact nomatch hflag
  · rw [if_pos rfl, if_neg hseed] at hflag
    exact nomatch hflag
  · rfl

/-- Two requests of account 0, in two blocks. -/
def sampleCalls : List (Call Oracle.sampleConfig UInt32) :=
  [.claimName (.signed 0) Anchor.sampleName, .request (.signed 0) ⟨[], by decide⟩ 0, .nextBlock,
    .request (.signed 0) ⟨[], by decide⟩ 1]

/-- Requests of different blocks are told apart. -/
theorem idsIdentify_iff_sample : IdsIdentify (history apply sampleChain sampleCalls) := by
  have hblock : (run apply sampleChain sampleCalls).blockNumber < 256 ^ 31 := by decide +kernel
  refine (idsIdentify_iff sampleChain sampleCalls (sampleConfig_collisionFree hblock)).mpr ?_
  simp only [sampleCalls, history_cons, history_nil]
  -- only the pair of the two requests is about two requests
  refine .cons ?_ (.cons ?_ (.cons ?_ (List.pairwise_singleton _ _)))
  · rintro _ _ ⟨_, _, _, hop, _⟩
    cases hop
  · rintro e' he' _ ⟨_, _, _, hop, _⟩
    rcases List.mem_cons.mp he' with rfl | he'
    · cases hop
    · obtain rfl := List.mem_singleton.mp he'
      decide +kernel
  · rintro _ _ ⟨_, _, _, hop, _⟩
    cases hop

private theorem not_same_id {e e' : ChainEvent cfg AccountId}
    (h : ∀ requestId r r', issued e = some (requestId, r) → issued e' ≠ some (requestId, r'))
    (requestId : Oracle.RequestId) (he : (issued e).map Prod.fst = some requestId)
    (he' : (issued e').map Prod.fst = some requestId) : False := by
  obtain ⟨⟨_, r⟩, hr, rfl⟩ := Option.map_eq_some_iff.mp he
  obtain ⟨⟨_, r'⟩, hr', rfl⟩ := Option.map_eq_some_iff.mp he'
  exact h _ r r' hr hr'

/-- No two calls share a caller, a key and a nonce. -/
def NoncesDistinct (calls : List (Call cfg AccountId)) : Prop :=
  calls.Pairwise fun o o' => ∀ origin key nonce,
    o = .request origin key nonce → o' ≠ .request origin key nonce

/-- Two requests of one block with different nonces draw the same id. -/
theorem request_ids_collide : ¬∀ calls : List (Call Oracle.sampleConfig UInt32),
    NoncesDistinct calls →
    CollisionFree Oracle.sampleConfig (run apply sampleChain calls).blockNumber →
    IdsIdentify (history apply sampleChain calls) := by
  intro h
  have hids := h [.claimName (.signed 0) Anchor.sampleName,
    .request (.signed 0) ⟨[], by decide⟩ 0, .request (.signed 0) ⟨[], by decide⟩ 1]
    (by simp [NoncesDistinct]) (sampleConfig_collisionFree (by decide +kernel))
  obtain ⟨_, hpair⟩ := List.pairwise_cons.mp hids.distinct
  -- neither the nonce nor anything else but the block went into the id
  exact not_same_id ((List.pairwise_cons.mp hpair).1 _ List.mem_cons_self)
    (Oracle.drawRequestId Oracle.sampleConfig 0 0) (by decide +kernel) (by decide +kernel)

end Paraxiom.Runtime
