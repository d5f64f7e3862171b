import Paraxiom.Spec.RequestIds

/-!
# Where oracle data comes from

`FeedData` is written by accepted answers and by nothing else: after any run it is the
list of all answers, in order, applied to what was there before (`feedData_of_run`). An
entry is therefore the last answer for it, and that answer was signed by the permanent
owner of the name its record declares.
-/

namespace Paraxiom.Runtime

open Scale KvStore Transactional

variable {cfg : Oracle.Config} {AccountId : Type}

/-! ## Answers -/

section Answers

variable [Codec AccountId]

/-- The record that an action carries and the request it resolves to, if it is a reply to
    a request on file. -/
def resolve (feedRequests : Oracle.RequestId → Option (Oracle.Request cfg AccountId))
    (raw : Anchor.ActionBytes) :
    Option (Oracle.ResponseRecord AccountId × Oracle.Request cfg AccountId) :=
  match Anchor.decodeAction raw with
  | some (.reply data) => do
    let record ← Oracle.decodeRecord data.toList
    let request ← feedRequests record.requestId
    return (record, request)
  | _ => none

/-- The entry of `FeedData` that an answer writes. -/
def filing (submitter : AccountId)
    (answer : Oracle.ResponseRecord AccountId × Oracle.Request cfg AccountId) :
    (AccountId × Oracle.Request cfg AccountId) × Option Oracle.ResponseData :=
  ((submitter, answer.2), some answer.1.responseData)

/-- The entries that an event writes, in order. -/
def filings (e : ChainEvent cfg AccountId) :
    List ((AccountId × Oracle.Request cfg AccountId) × Option Oracle.ResponseData) :=
  match e.op, e.result with
  | .rollup (.signed who) _ tx _, .ok _ =>
    (tx.actions.filterMap (resolve e.pre.oracle.feedRequests)).map (filing who)
  | _, _ => []

/-- A call that fails files nothing. -/
theorem filings_of_error {e : ChainEvent cfg AccountId} {f : Failure DispatchError}
    (h : e.result = .error f) : filings e = [] := by
  unfold filings
  split
  · rename_i hres
    exact nomatch h.symm.trans hres
  · rfl

/-- Nor does a call that is no rollup. -/
theorem filings_of_elsewhere {e : ChainEvent cfg AccountId} (h : e.op.IsElsewhere) :
    filings e = [] := by
  unfold filings
  split
  · rename_i hop _
    rw [hop] at h
    exact h.elim
  · rfl

/-- An answer of an accepted rollup is filed under its signer. -/
theorem mem_filings {e : ChainEvent cfg AccountId} {who : AccountId} {name : H256}
    {tx : Anchor.RollupTx} {nonce : U128} {u : Unit}
    (hop : e.op = .rollup (.signed who) name tx nonce) (hres : e.result = .ok u)
    {raw : Anchor.ActionBytes} (hraw : raw ∈ tx.actions)
    {answer : Oracle.ResponseRecord AccountId × Oracle.Request cfg AccountId}
    (h : resolve e.pre.oracle.feedRequests raw = some answer) : filing who answer ∈ filings e := by
  rw [filings, hop, hres]
  exact List.mem_map_of_mem (List.mem_filterMap.mpr ⟨raw, hraw, h⟩)

/-- An action resolves when it is a reply whose record names a request on file. -/
theorem resolve_eq_some {feedRequests : Oracle.RequestId → Option (Oracle.Request cfg AccountId)}
    {raw : Anchor.ActionBytes} {record : Oracle.ResponseRecord AccountId}
    {request : Oracle.Request cfg AccountId} :
    resolve feedRequests raw = some (record, request) ↔
      ∃ data, Anchor.decodeAction raw = some (.reply data) ∧
        Oracle.decodeRecord data.toList = some record ∧
        feedRequests record.requestId = some request := by
  unfold resolve
  split
  · -- a reply: the record and the request are looked up in turn
    rename_i data hdec
    simp only [bind, Option.bind_eq_some_iff, pure, Option.some.injEq, Prod.mk.injEq]
    constructor
    · rintro ⟨record, hrecord, request, hrequest, rfl, rfl⟩
      exact ⟨data, hdec, hrecord, hrequest⟩
    · rintro ⟨data', hdata, hrecord, hrequest⟩
      obtain rfl := Anchor.Action.reply.inj (Option.some.inj (hdec.symm.trans hdata))
      exact ⟨record, hrecord, request, hrequest, rfl, rfl⟩
  · -- a head move, or bytes that are no action
    rename_i hno
    exact ⟨nofun, fun ⟨data, hdec, _⟩ => absurd hdec (hno data)⟩

end Answers

/-! ## What the chain files -/

section Steps

variable [DecidableEq AccountId] [Codec AccountId]

omit [Codec AccountId] in
/-- An answer is one write. -/
theorem uncurry_insertData (s : Oracle.State cfg AccountId) (submitter : AccountId)
    (answer : Oracle.ResponseRecord AccountId × Oracle.Request cfg AccountId) :
    Function.uncurry (s.insertData submitter answer.2 answer.1.responseData).feedData =
      writeAll [filing submitter answer] (Function.uncurry s.feedData) := by
  funext ⟨submitter', request'⟩
  rw [writeAll_cons, writeAll_nil, filing, Function.uncurry_apply_pair]
  by_cases h : submitter' = submitter ∧ request' = answer.2
  · obtain ⟨rfl, rfl⟩ := h
    rw [Oracle.insertData_self, Function.update_self]
  · rw [Oracle.insertData_of_ne _ _ h, Function.update_of_ne, Function.uncurry_apply_pair]
    exact fun he => h (Prod.mk.inj he)

/-- One action either files the answer it resolves to or leaves the oracle alone. -/
theorem execAction_answer {name : H256} {who : AccountId} {raw : Anchor.ActionBytes}
    {s s' : Anchor.State AccountId × Oracle.State cfg AccountId}
    (h : Anchor.execAction cfg.anchor Oracle.onResponse name who s raw = .ok s') :
    s'.2.feedRequests = s.2.feedRequests ∧
      ((∃ answer, resolve s.2.feedRequests raw = some answer ∧ answer.1.phatContractId = name ∧
          Function.uncurry s'.2.feedData =
            writeAll [filing who answer] (Function.uncurry s.2.feedData)) ∨
        resolve s.2.feedRequests raw = none ∧ s'.2.feedData = s.2.feedData) := by
  obtain ⟨_, ⟨data, hdec, hr⟩ | ⟨index, hdec, _, hr⟩⟩ := Anchor.execAction_eq_ok h
  · -- the handler accepted the reply, so it resolves
    obtain ⟨record, request, hrecord, hname, hrequest, hs'⟩ := Oracle.onResponse_eq_ok.mp hr
    rw [hs']
    exact ⟨rfl, .inl ⟨(record, request), resolve_eq_some.mpr ⟨data, hdec, hrecord, hrequest⟩, hname,
      uncurry_insertData s.2 who (record, request)⟩⟩
  · rw [hr]
    exact ⟨rfl, .inr ⟨by rw [resolve, hdec], rfl⟩⟩

/-- The action loop of a rollup files its answers in order. -/
theorem foldlM_execAction_feedData {name : H256} {who : AccountId}
    {actions : List Anchor.ActionBytes}
    {s s' : Anchor.State AccountId × Oracle.State cfg AccountId}
    (h : actions.foldlM (Anchor.execAction cfg.anchor Oracle.onResponse name who) s = .ok s') :
    Function.uncurry s'.2.feedData =
      writeAll ((actions.filterMap (resolve s.2.feedRequests)).map (filing who))
        (Function.uncurry s.2.feedData) := by
  induction actions generalizing s with
  | nil =>
    obtain rfl := Exec.pure_eq_ok.mp h
    rfl
  | cons raw actions ih =>
    rw [List.foldlM_cons] at h
    obtain ⟨s₁, h₁, h⟩ := Exec.bind_eq_ok.mp h
    -- no action changes the requests on file, so the rest resolves as it did at the start
    obtain ⟨hreq, ⟨answer, hres, _, hs₁⟩ | ⟨hres, hs₁⟩⟩ := execAction_answer h₁
    · rw [ih h, hreq, List.filterMap_cons_some hres, List.map_cons, writeAll_cons, hs₁]
      rfl
    · rw [ih h, hreq, List.filterMap_cons_none hres, hs₁]

/-- Every reply of an accepted rollup carries a record that declares its name and resolves
    to a request on file before the rollup. -/
theorem foldlM_execAction_answers {name : H256} {who : AccountId}
    {actions : List Anchor.ActionBytes}
    {s s' : Anchor.State AccountId × Oracle.State cfg AccountId}
    (h : actions.foldlM (Anchor.execAction cfg.anchor Oracle.onResponse name who) s = .ok s') :
    ∀ raw ∈ actions, ∀ data, Anchor.decodeAction raw = some (.reply data) →
      ∃ answer, resolve s.2.feedRequests raw = some answer ∧ answer.1.phatContractId = name := by
  induction actions generalizing s with
  | nil => exact nofun
  | cons raw actions ih =>
    rw [List.foldlM_cons] at h
    obtain ⟨s₁, h₁, h⟩ := Exec.bind_eq_ok.mp h
    obtain ⟨hreq, hact⟩ := execAction_answer h₁
    have ih := ih h
    rw [hreq] at ih
    refine List.forall_mem_cons.mpr ⟨fun data hdata => ?_, ih⟩
    rcases hact with ⟨answer, hres, hname, _⟩ | ⟨hres, _⟩
    · exact ⟨answer, hres, hname⟩
    · -- an action that resolves to nothing is a head move
      obtain ⟨_, ⟨data', _, hr⟩ | ⟨index, hdec, _⟩⟩ := Anchor.execAction_eq_ok h₁
      · obtain ⟨record, request, hrecord, _, hrequest, _⟩ := Oracle.onResponse_eq_ok.mp hr
        rw [resolve_eq_some.mpr ⟨data', ‹_›, hrecord, hrequest⟩] at hres
        exact nomatch hres
      · exact nomatch hdec.symm.trans hdata

/-- One event changes `FeedData` by its filings. -/
theorem feedData_step (c : Chain cfg AccountId) (o : Call cfg AccountId) :
    Function.uncurry (step apply c o).oracle.feedData =
      writeAll (filings (event apply c o)) (Function.uncurry c.oracle.feedData) := by
  cases hres : apply o c with
  | error f =>
    have he := event_result_eq_error.mpr hres
    rw [step_of_error hres, filings_of_error he, writeAll_nil]
  | ok p =>
    obtain ⟨u, c'⟩ := p
    have he : (event apply c o).result = .ok u :=
      event_result_eq_ok.mpr (by rw [hres, step_of_ok hres])
    rw [step_of_ok hres]
    rcases apply_eq_ok_cases hres with ⟨_, _, _, rfl, _, rfl⟩ |
      ⟨origin, name, tx, nonce, anchor, oracle, rfl, hroll, rfl⟩ |
      ⟨origin, key, nonce, anchor, oracle, rfl, hok, rfl⟩ | ⟨helse, _, horacle, _⟩
    · rfl
    · obtain ⟨who, rfl, _, _, s₁, hloop, hs'⟩ := Anchor.rollup_eq_ok.mp hroll
      obtain ⟨_, rfl⟩ := Prod.mk.inj hs'
      rw [filings, he]
      exact foldlM_execAction_feedData hloop
    · -- a request files itself, and no data
      obtain ⟨_, _, _, _, _, _, _, _, _, _, _, horacle⟩ := Oracle.request_eq_ok.mp hok
      rw [show oracle = _ from horacle]
      rfl
    · rw [horacle, filings_of_elsewhere helse, writeAll_nil]

/-- `FeedData` after a run is what was there before with all answers filed in order. -/
theorem feedData_of_run (c : Chain cfg AccountId) (calls : List (Call cfg AccountId)) :
    Function.uncurry (run apply c calls).oracle.feedData =
      writeAll ((history apply c calls).flatMap filings) (Function.uncurry c.oracle.feedData) := by
  induction calls generalizing c with
  | nil => rfl
  | cons o calls ih =>
    rw [run_cons, ih, feedData_step, history_cons, List.flatMap_cons, writeAll_append]

/-! ## Ownership and payloads -/

/-- The owner of a name stays its owner. -/
theorem owner_step {name : H256} {who : AccountId} (c : Chain cfg AccountId)
    (o : Call cfg AccountId) (h : c.anchor.submitterByNames.lookup name = some who) :
    (step apply c o).anchor.submitterByNames.lookup name = some who := by
  cases hres : apply o c with
  | error f => rw [step_of_error hres]; exact h
  | ok p =>
    obtain ⟨u, c'⟩ := p
    rw [step_of_ok hres]
    rcases apply_eq_ok_cases hres with ⟨_, n, anchor, rfl, hclaim, rfl⟩ |
      ⟨origin, n, tx, nonce, anchor, oracle, rfl, hroll, rfl⟩ |
      ⟨origin, key, nonce, anchor, oracle, rfl, hok, rfl⟩ | ⟨_, hanchor, _, _⟩
    · obtain ⟨who', _, hnone, rfl⟩ := Anchor.claimName_eq_ok.mp hclaim
      -- only a name without an owner can be claimed
      have hne : name ≠ n := fun he => by
        rw [he, hnone] at h
        exact nomatch h
      show (c.anchor.submitterByNames.insert n who').lookup name = some who
      rw [AList.lookup_insert_ne hne, h]
    · show anchor.submitterByNames.lookup name = some who
      rw [(Anchor.rollup_effect hroll).2.2, h]
    · -- a request pushes a message, which writes entries of a store only
      obtain ⟨_, _, _, _, _, _, _, _, _, _, hpush, _⟩ := Oracle.request_eq_ok.mp hok
      obtain ⟨_, _, _, _, _, hs'⟩ := Anchor.pushMessage_eq_ok hpush
      rw [show anchor = _ from hs', Anchor.applyUpdates_submitterByNames]
      exact h
    · rw [hanchor]
      exact h

/-- Every request on file sent the id it is filed under. -/
def PayloadsCarryIds (c : Chain cfg AccountId) : Prop :=
  ∀ requestId r, c.oracle.feedRequests requestId = some r →
    r.requestedData.toList.take 32 = requestId.toList

/-- A request that is filed carries the id it is filed under. -/
theorem payloadsCarryIds_step (c : Chain cfg AccountId) (o : Call cfg AccountId)
    (h : PayloadsCarryIds c) : PayloadsCarryIds (step apply c o) := by
  cases hissued : issued (event apply c o) with
  | none =>
    unfold PayloadsCarryIds
    rw [feedRequests_step hissued]
    exact h
  | some p =>
    obtain ⟨id, r⟩ := p
    have hissues := (issues_of_issued hissued).2
    obtain ⟨feed, _, _, hmessage⟩ := hissues.message
    intro requestId r' hr'
    rw [hissues.filed] at hr'
    by_cases hid : requestId = id
    · subst hid
      rw [Function.update_self] at hr'
      obtain rfl := Option.some.inj hr'
      -- the id is the first component of the encoded message
      rw [hmessage]
      exact List.take_left' requestId.length_eq
    · -- the other requests were on file before
      rw [Function.update_of_ne hid] at hr'
      exact h requestId r' hr'

/-! ## Provenance -/

private theorem flatMap_split {α β : Type} {f : α → List β} {l : List α} {before after : List β}
    {x : β} (h : l.flatMap f = before ++ x :: after) :
    ∃ l₁ a l₂ mid₁ mid₂, l = l₁ ++ a :: l₂ ∧ f a = mid₁ ++ x :: mid₂ ∧
      after = mid₂ ++ l₂.flatMap f := by
  induction l generalizing before with
  | nil => simp at h
  | cons a l ih =>
    rw [List.flatMap_cons] at h
    rcases List.append_eq_append_iff.mp h with ⟨mid, rfl, hrest⟩ | ⟨mid, hfa, hrest⟩
    · -- `x` lies past what the first element yields
      obtain ⟨l₁, a', l₂, mid₁, mid₂, rfl, hfa', hafter⟩ := ih hrest
      exact ⟨a :: l₁, a', l₂, mid₁, mid₂, rfl, hfa', hafter⟩
    · cases mid with
      | nil =>
        have hlater : l.flatMap f = [] ++ x :: after := by simpa using hrest.symm
        obtain ⟨l₁, a', l₂, mid₁, mid₂, rfl, hfa', hafter⟩ := ih hlater
        exact ⟨a :: l₁, a', l₂, mid₁, mid₂, rfl, hfa', hafter⟩
      | cons y mid =>
        -- `x` is among what the first element yields
        obtain ⟨rfl, hafter⟩ := List.cons.inj hrest
        exact ⟨[], a, l, before, mid, rfl, hfa, hafter⟩

omit [DecidableEq AccountId] in
/-- A filing of an event is an answer among the actions of its rollup. -/
theorem filings_split {e : ChainEvent cfg AccountId} {submitter : AccountId}
    {r : Oracle.Request cfg AccountId} {v : Option Oracle.ResponseData}
    {mid₁ mid₂ : List ((AccountId × Oracle.Request cfg AccountId) × Option Oracle.ResponseData)}
    (h : filings e = mid₁ ++ ((submitter, r), v) :: mid₂) :
    ∃ name tx nonce before raw after record, e.op = .rollup (.signed submitter) name tx nonce ∧
      e.result = .ok () ∧ tx.actions = before ++ raw :: after ∧
      resolve e.pre.oracle.feedRequests raw = some (record, r) ∧ v = some record.responseData ∧
      mid₂ = (after.filterMap (resolve e.pre.oracle.feedRequests)).map (filing submitter) := by
  unfold filings at h
  split at h
  · rename_i who name tx nonce u hop hres
    obtain ⟨answers₁, answers₂, hanswers, _, h₂⟩ := List.map_eq_append_iff.mp h
    obtain ⟨⟨record, r'⟩, answers₃, rfl, hfiling, h₃⟩ := List.map_eq_cons_iff.mp h₂
    obtain ⟨actions₁, actions₂, hactions, _, h₄⟩ := List.filterMap_eq_append_iff.mp hanswers
    obtain ⟨skipped, raw, after, rfl, _, hraw, h₅⟩ := List.filterMap_eq_cons_iff.mp h₄
    simp only [filing, Prod.mk.injEq] at hfiling
    obtain ⟨⟨rfl, rfl⟩, rfl⟩ := hfiling
    exact ⟨name, tx, nonce, actions₁ ++ skipped, raw, after, record, hop, hres,
      by rw [hactions, List.append_assoc], hraw, rfl, by rw [← h₃, h₅]⟩
  · simp at h

/-- What holds of the event of an accepted rollup: who signed it owns the name, and every
    reply in it carries a record that declares the name and resolves to a request. -/
theorem rollup_event {c : Chain cfg AccountId} {o : Call cfg AccountId} {origin : Origin AccountId}
    {name : H256} {tx : Anchor.RollupTx} {nonce : U128}
    (hop : o = .rollup origin name tx nonce) (hres : (event apply c o).result = .ok ()) :
    ∃ who, origin = .signed who ∧ c.anchor.submitterByNames.lookup name = some who ∧
      ∀ raw ∈ tx.actions, ∀ data, Anchor.decodeAction raw = some (.reply data) →
        ∃ answer, resolve c.oracle.feedRequests raw = some answer ∧
          answer.1.phatContractId = name := by
  subst hop
  obtain ⟨_, _, hroll, _⟩ := apply_rollup_eq_ok.mp (event_result_eq_ok.mp hres)
  obtain ⟨who, horigin, howner, _, s₁, hloop, _⟩ := Anchor.rollup_eq_ok.mp hroll
  exact ⟨who, horigin, howner, foldlM_execAction_answers hloop⟩

/-- A chain with empty anchor and oracle storage. -/
def withRegistry (block : BlockNumber) (registry : Registry.State cfg.registry AccountId) :
    Chain cfg AccountId :=
  ⟨block, registry, Anchor.genesis, Oracle.genesis⟩

/-- Every entry of `FeedData` has a source. From any registry and empty anchor and oracle
    storage, an entry for `(s, r)` was written by a reply in an accepted rollup that `s`
    signed on a name it owned then and owns in every later state; the record of the reply
    declares that name, holds the data and carries the id that `r` was on file under; no
    later reply by `s`, in the same rollup or after it, resolved to `r`; and `r` itself
    sent that id. -/
theorem feedData_provenance (block : BlockNumber) (registry : Registry.State cfg.registry AccountId)
    (calls : List (Call cfg AccountId)) (s : AccountId) (r : Oracle.Request cfg AccountId)
    (d : Oracle.ResponseData)
    (h : (run apply (withRegistry block registry) calls).oracle.feedData s r = some d) :
    ∃ earlier e later name tx nonce before raw after record,
      history apply (withRegistry block registry) calls = earlier ++ e :: later ∧
      e.op = .rollup (.signed s) name tx nonce ∧ e.result = .ok () ∧
      (∀ c ∈ e.pre :: (e :: later).map Event.post,
        c.anchor.submitterByNames.lookup name = some s) ∧
      tx.actions = before ++ raw :: after ∧
      resolve e.pre.oracle.feedRequests raw = some (record, r) ∧
      record.phatContractId = name ∧ record.responseData = d ∧
      (∀ raw' ∈ after, ∀ record', resolve e.pre.oracle.feedRequests raw' ≠ some (record', r)) ∧
      (∀ e' ∈ later, ∀ name' tx' nonce', e'.op = .rollup (.signed s) name' tx' nonce' →
        e'.result = .ok () → ∀ raw' ∈ tx'.actions, ∀ record',
          resolve e'.pre.oracle.feedRequests raw' ≠ some (record', r)) ∧
      r.requestedData.toList.take 32 = record.requestId.toList := by
  have hrun := congrFun (feedData_of_run (withRegistry block registry) calls) (s, r)
  rw [Function.uncurry_apply_pair, h] at hrun
  -- the entry is the last filing for its key
  rcases writeAll_last_writer ((history apply (withRegistry block registry) calls).flatMap filings)
    (Function.uncurry (withRegistry block registry).oracle.feedData) (s, r)
    with ⟨_, v, filed, hsplit, hlast, hv⟩ | ⟨_, hnone⟩
  · obtain ⟨earlier, e, later, mid₁, mid₂, hpast, hfilings, rfl⟩ := flatMap_split hsplit
    obtain ⟨name, tx, nonce, before, raw, after, record, hop, hres, hactions, hresolve, rfl, rfl⟩ :=
      filings_split hfilings
    obtain rfl : d = record.responseData := Option.some.inj (hrun.trans hv)
    obtain ⟨calls₁, o, calls₂, hcalls, rfl, rfl, rfl⟩ := history_split hpast
    obtain ⟨who, hwho, howner, hnames⟩ := rollup_event hop hres
    obtain rfl := Origin.signed.inj hwho
    obtain ⟨data, hdata, _, hrequest⟩ := resolve_eq_some.mp hresolve
    obtain ⟨answer, hanswer, hname⟩ := hnames raw (by simp [hactions]) data hdata
    obtain rfl := Option.some.inj (hresolve.symm.trans hanswer)
    refine ⟨_, _, _, name, tx, nonce, before, raw, after, record, hpast, hop, hres, ?_,
      hactions, hresolve, hname, rfl, ?_, ?_, ?_⟩
    · -- ownership holds before the rollup and is kept by every step
      have hkept := forall_later (I := fun c : Chain cfg AccountId =>
        c.anchor.submitterByNames.lookup name = some s) owner_step howner (o :: calls₂)
      intro c hc
      rcases List.mem_cons.mp hc with rfl | hc
      · exact howner
      · obtain ⟨e, he, rfl⟩ := List.mem_map.mp hc
        exact (hkept e he).2
    · -- a later reply of the rollup would have been the last to write
      intro raw' hraw' record' hresolve'
      refine hlast (filing s (record', r)) (List.mem_append_left _ ?_) rfl
      exact List.mem_map_of_mem (List.mem_filterMap.mpr ⟨raw', hraw', hresolve'⟩)
    · -- and so would a reply of a later rollup
      intro e' he' name' tx' nonce' hop' hres' raw' hraw' record' hresolve'
      refine hlast (filing s (record', r)) (List.mem_append_right _ ?_) rfl
      exact List.mem_flatMap.mpr ⟨e', he', mem_filings hop' hres' hraw' hresolve'⟩
    · -- nothing is on file at the start
      have hstart : PayloadsCarryIds (withRegistry block registry) :=
        fun _ _ hr => nomatch (show none = some _ from hr)
      exact run_invariant payloadsCarryIds_step hstart calls₁ record.requestId r hrequest
  · exact nomatch hrun.trans hnone

end Steps

/-- A record that answers the request of account 0 in block 0. -/
def sampleRecord : Oracle.ResponseRecord UInt32 :=
  ⟨0, Anchor.sampleName, Oracle.drawRequestId Oracle.sampleConfig 0 0, ⟨[42], by decide⟩, 0⟩

/-- The request of account 0. -/
def sampleRequest : Oracle.Request Oracle.sampleConfig UInt32 :=
  ⟨BoundedVec.truncateFrom _ [], 0, 0, BoundedVec.truncateFrom 2048
    (encode (sampleRecord.requestId, ([] : Bytes), ([] : Bytes)))⟩

/-- The answer to it. -/
def sampleReply : Anchor.ActionBytes :=
  BoundedVec.truncateFrom 256
    (encode (Anchor.Action.reply (BoundedVec.truncateFrom 256 (encode sampleRecord))))

/-- Account 0 claims a name, requests its feed, and answers. -/
def sampleLifecycle : List (Call Oracle.sampleConfig UInt32) :=
  [.claimName (.signed 0) Anchor.sampleName, .request (.signed 0) (BoundedVec.truncateFrom _ []) 0,
    .rollup (.signed 0) Anchor.sampleName ⟨[], [sampleReply], []⟩ 0]

/-- The answer filed in that run was signed by the owner of the name. -/
theorem feedData_provenance_sample :
    ∃ e ∈ history apply sampleChain sampleLifecycle, ∃ name tx nonce,
      e.op = .rollup (.signed 0) name tx nonce ∧ e.result = .ok () ∧
      e.pre.anchor.submitterByNames.lookup name = some 0 := by
  have ⟨earlier, e, later, name, tx, nonce, _, _, _, _, hpast, hop, hres, howner, _⟩ :=
    feedData_provenance 0 sampleChain.registry sampleLifecycle 0 sampleRequest ⟨[42], by decide⟩
      (by decide +kernel)
  refine ⟨e, ?_, name, tx, nonce, hop, hres, howner _ List.mem_cons_self⟩
  rw [show history apply sampleChain sampleLifecycle = _ from hpast]
  simp

end Paraxiom.Runtime
