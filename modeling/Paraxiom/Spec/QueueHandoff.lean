import Paraxiom.Phat.OracleFeed
import Paraxiom.Spec.OracleProvenance
import Paraxiom.Spec.QueueRefinement

/-!
# From the oracle pallet to the contract

The pallet pushes `(request_id, url, path)` to the queue under `_queue/`; the contract pops
the queue under `q/` and decodes `(url, path, request_id)`. Neither agrees: what the
contract finds under `q/` is never the pallet's doing (`store_outside_queue`), and the
pallet's message is too short to decode to the triple it stands for
(`decode_requestMessage_ne`).
-/

namespace Paraxiom.Runtime

open Scale KvStore Transactional PhatOracleFeed

variable {cfg : Oracle.Config} {AccountId : Type}

/-! ## The client -/

/-- The key of an index of the queue under a prefix. -/
def clientSlot {ι : Type} [Codec ι] (queuePrefix : Bytes) (index : ι) : Anchor.KeyBytes :=
  BoundedVec.truncateFrom 128 (queuePrefix ++ encode index)

/-- What the rollup client documents of `pop`: it reads the head under `_head` and returns
    the bytes stored under the head; an unreadable head is an error. -/
def PopReads (pop : Pop) : Prop :=
  ∀ queuePrefix store, queuePrefix.length + 5 ≤ 128 → pop queuePrefix store =
    (Anchor.readIndex (store (clientSlot queuePrefix Anchor.headIndex))).map fun head =>
      (store (clientSlot queuePrefix head)).map BoundedVec.toList

/-- The contract, configured and connected to a store, obtains a request. -/
def Obtains (pop : Pop) (store : Anchor.Store) (req : Req) : Prop :=
  ∀ config, processQueueRequest (fun _ => some store) pop (some config) = .ok (some req)

/-- The store holds, under the prefix of the contract's client, a head and under that head
    bytes that decode to a request. -/
def Planted (store : Anchor.Store) (req : Req) : Prop :=
  ∃ head bytes rest,
    Anchor.readIndex (store (clientSlot PhatOracleFeed.queuePrefix Anchor.headIndex)) = some head ∧
    store (clientSlot PhatOracleFeed.queuePrefix head) = some bytes ∧
    decode bytes.toList = some (req, rest)

theorem obtains_iff_planted {pop : Pop} (hpop : PopReads pop) (store : Anchor.Store) (req : Req) :
    Obtains pop store req ↔ Planted store req := by
  unfold Obtains Planted processQueueRequest
  simp only [ensureConfigured, Exec.bind_eq_ok, okOr_eq_ok, Option.some.injEq, exists_eq_left',
    hpop PhatOracleFeed.queuePrefix store (by decide), Option.map_eq_some_iff]
  constructor
  · intro h
    obtain ⟨next, ⟨head, hhead, hnext⟩, h⟩ := h ⟨"", 0, ⟨List.replicate 32 0, rfl⟩⟩
    cases hentry : store (clientSlot PhatOracleFeed.queuePrefix head) with
    | none =>
      -- the queue is empty, and the contract returns nothing
      rw [hentry] at hnext
      subst hnext
      exact nomatch Exec.pure_eq_ok.mp h
    | some bytes =>
      rw [hentry] at hnext
      subst hnext
      obtain ⟨⟨req', rest⟩, hdec, h⟩ := Exec.bind_eq_ok.mp h
      obtain rfl := Option.some.inj (Exec.pure_eq_ok.mp h)
      exact ⟨head, bytes, rest, hhead, hentry, okOr_eq_ok.mp hdec⟩
  · rintro ⟨head, bytes, rest, hhead, hentry, hdec⟩ config
    refine ⟨some bytes.toList, ⟨head, hhead, by rw [hentry]; rfl⟩, ?_⟩
    exact Exec.bind_eq_ok.mpr ⟨(req, rest), okOr_eq_ok.mpr hdec, rfl⟩

/-! ## The message -/

/-- Decoding a request consumes as many bytes as its three byte strings take. -/
theorem length_of_decode_req {bs rest : Bytes} {req : Req} (h : decode bs = some (req, rest)) :
    bs.length = (encode req.1).length + (encode req.2.1).length + (encode req.2.2).length +
      rest.length := by
  obtain ⟨bs₁, h₁, h⟩ := decode_prod_eq_some.mp h
  obtain ⟨bs₂, h₂, h₃⟩ := decode_prod_eq_some.mp h
  rw [decode_bytes_eq_some h₁, decode_bytes_eq_some h₂, decode_bytes_eq_some h₃]
  omega

/-- The pallet writes the id as 32 bytes without a length, so its message has one byte
    less than the triple that the contract expects. -/
theorem decode_requestMessage_ne (requestId : Oracle.RequestId)
    (feed : Registry.ApiFeed cfg.registry) (rest : Bytes) :
    decode (Oracle.requestMessage requestId feed) ≠
      some (((feed.url.toList, feed.path.toList, requestId.toList) : Req), rest) := by
  intro h
  have hlen := length_of_decode_req h
  have hmessage : (Oracle.requestMessage requestId feed).length =
      32 + ((encode feed.url.toList).length + (encode feed.path.toList).length) := by
    show (requestId.toList ++ (encode feed.url.toList ++ encode feed.path.toList)).length = _
    rw [List.length_append, List.length_append, requestId.length_eq]
  have hid : (encode requestId.toList).length = 33 := by
    rw [length_encode_bytes, requestId.length_eq]
    rfl
  simp only at hlen
  omega

/-! ## What lies under the client's prefix -/

/-- The updates that an event applied to the store of a name. -/
def updatesOn (name : H256) (e : ChainEvent cfg AccountId) :
    List (Anchor.KeyBytes × Option Anchor.ValueBytes) :=
  match e.op, e.result with
  | .rollup _ n tx _, .ok _ => if n = name then tx.updates else []
  | _, _ => []

theorem updatesOn_of_error (name : H256) {e : ChainEvent cfg AccountId} {f : Failure DispatchError}
    (h : e.result = .error f) : updatesOn name e = [] := by
  unfold updatesOn
  split
  · rename_i hres
    exact nomatch h.symm.trans hres
  · rfl

theorem updatesOn_of_elsewhere (name : H256) {e : ChainEvent cfg AccountId}
    (h : e.op.IsElsewhere) : updatesOn name e = [] := by
  unfold updatesOn
  split
  · rename_i hop _
    rw [hop] at h
    exact h.elim
  · rfl

section Steps

variable [DecidableEq AccountId] [Codec AccountId]

/-- Outside the queue's keys, an event changes a store by the updates of its rollup. -/
theorem store_outside_queue_step (c : Chain cfg AccountId) (o : Call cfg AccountId) (name : H256)
    {key : Anchor.KeyBytes} (hkey : ¬Anchor.IsQueueKey cfg.anchor key) :
    (step apply c o).anchor.states name key =
      writeAll (updatesOn name (event apply c o)) (c.anchor.states name) key := by
  cases hres : apply o c with
  | error f =>
    rw [step_of_error hres, updatesOn_of_error name (event_result_eq_error.mpr hres)]
    rfl
  | ok p =>
    obtain ⟨u, c'⟩ := p
    have he : (event apply c o).result = .ok u :=
      event_result_eq_ok.mpr (by rw [hres, step_of_ok hres])
    rw [step_of_ok hres]
    rcases apply_eq_ok_cases hres with ⟨_, _, _, rfl, hclaim, rfl⟩ |
      ⟨origin, n, tx, nonce, anchor, oracle, rfl, hroll, rfl⟩ |
      ⟨origin, feedKey, nonce, anchor, oracle, rfl, hok, rfl⟩ | ⟨helse, hanchor, _, _⟩
    · obtain ⟨_, _, _, rfl⟩ := Anchor.claimName_eq_ok.mp hclaim
      rfl
    · obtain ⟨hself, hother, _⟩ := Anchor.rollup_effect hroll
      rw [updatesOn, he]
      show anchor.states name key = writeAll (if n = name then tx.updates else []) _ key
      by_cases hn : n = name
      · -- its head moves write keys of the queue only: what is left are the updates
        subst hn
        rw [if_pos rfl, hself, Anchor.queueMoves_of_not_isQueueKey hkey]
      · rw [if_neg hn, hother name (Ne.symm hn)]
        rfl
    · obtain ⟨_, _, _, n, _, _, _, _, _, _, hpush, _⟩ := Oracle.request_eq_ok.mp hok
      obtain ⟨_, _, _, _, _, hs'⟩ := Anchor.pushMessage_eq_ok hpush
      rw [show anchor = _ from hs']
      by_cases hn : name = n
      · -- a push writes keys of the queue only
        subst hn
        rw [Anchor.applyUpdates_states_self]
        exact Anchor.writeAll_of_not_isQueueKey Anchor.isQueueKey_of_mem_pushMoves hkey _
      · rw [Anchor.applyUpdates_states_of_ne _ _ _ hn]
        rfl
    · rw [hanchor, updatesOn_of_elsewhere name helse, writeAll_nil]

/-- Outside the queue's keys, a run changes a store by the updates of its rollups. -/
theorem store_outside_queue (c : Chain cfg AccountId) (calls : List (Call cfg AccountId))
    (name : H256) {key : Anchor.KeyBytes} (hkey : ¬Anchor.IsQueueKey cfg.anchor key) :
    (run apply c calls).anchor.states name key =
      writeAll ((history apply c calls).flatMap (updatesOn name)) (c.anchor.states name) key := by
  induction calls generalizing c with
  | nil => rfl
  | cons o calls ih =>
    rw [run_cons, ih, history_cons, List.flatMap_cons, writeAll_append]
    exact writeAll_congr_apply (store_outside_queue_step c o name hkey)

end Steps

/-- No key of the client is a key of the pallet's queue: the prefixes start differently. -/
theorem clientSlot_not_isQueueKey (hconfig : cfg.anchor.queuePrefix = Anchor.runtimeQueuePrefix)
    {ι : Type} [Codec ι] (index : ι) :
    ¬Anchor.IsQueueKey cfg.anchor (clientSlot PhatOracleFeed.queuePrefix index) := by
  have hne : ∀ {κ : Type} [Codec κ] (i : κ),
      clientSlot PhatOracleFeed.queuePrefix index ≠ Anchor.slot cfg.anchor i := by
    intro κ _ i h
    -- `q/` and `_queue/` differ in their first byte
    have hfirst := congrArg (fun key : Anchor.KeyBytes => key.toList.head?) h
    simp [clientSlot, Anchor.slot, hconfig, BoundedVec.truncateFrom, PhatOracleFeed.queuePrefix,
      Anchor.runtimeQueuePrefix] at hfirst
  rintro (h | h | ⟨i, h⟩)
  · exact hne _ h
  · exact hne _ h
  · exact hne i h

/-! ## The handoff -/

section Handoff

variable [DecidableEq AccountId] [Codec AccountId]

/-- A request was accepted in the run, and its message is now the head of its queue. -/
def Delivered (c₀ : Chain cfg AccountId) (calls : List (Call cfg AccountId)) (name : H256)
    (requestId : Oracle.RequestId) (url : Registry.RegistryFeedUrl cfg.registry)
    (path : Registry.RegistryFeedPath cfg.registry) : Prop :=
  ∃ e ∈ history apply c₀ calls, ∃ r head, issued e = some (requestId, r) ∧
    Oracle.selectName cfg e.pre.anchor = some name ∧
    r.requestedData.toList = encode (requestId, url, path) ∧
    (Anchor.queueHead cfg.anchor name (run apply c₀ calls).anchor : Exec DispatchError UInt32) =
      .ok head ∧
    (Anchor.queueGet cfg.anchor name head (run apply c₀ calls).anchor :
      Exec DispatchError (Option Anchor.ValueBytes)) = .ok (some r.requestedData)

/-- When the contract obtains a request that was delivered to it. Under the runtime's queue
    prefix, and whatever the client's `pop` does beyond its documentation: it obtains the
    url, the path and the id exactly when the updates of the accepted rollups on its name,
    applied in order to an empty store, leave bytes for them under `q/`. The message itself
    never decodes to them, and without an update under `q/` they are never obtained. -/
theorem handoff_iff_planted (hconfig : cfg.anchor.queuePrefix = Anchor.runtimeQueuePrefix)
    (pop : Pop) (hpop : PopReads pop) (block : BlockNumber)
    (registry : Registry.State cfg.registry AccountId) (calls : List (Call cfg AccountId))
    (name : H256) (requestId : Oracle.RequestId) (url : Registry.RegistryFeedUrl cfg.registry)
    (path : Registry.RegistryFeedPath cfg.registry)
    (h : Delivered (withRegistry block registry) calls name requestId url path) :
    let req : Req := (url.toList, path.toList, requestId.toList)
    let store := (run apply (withRegistry block registry) calls).anchor.states name
    let updates := (history apply (withRegistry block registry) calls).flatMap (updatesOn name)
    (Obtains pop store req ↔ Planted (writeAll updates fun _ => none) req) ∧
      (∃ head bytes,
        Anchor.readIndex (store (Anchor.slot cfg.anchor Anchor.headIndex)) = some head ∧
        store (Anchor.slot cfg.anchor head) = some bytes ∧
        ∀ rest, decode bytes.toList ≠ some (req, rest)) ∧
      ((∀ u ∈ updates, ¬PhatOracleFeed.queuePrefix <+: u.1.toList) → ¬Obtains pop store req) := by
  intro req store updates
  -- the client reads keys that the pallet's queue does not use
  have hstore : ∀ {ι : Type} [Codec ι] (index : ι),
      store (clientSlot PhatOracleFeed.queuePrefix index) =
        writeAll updates (fun _ => none) (clientSlot PhatOracleFeed.queuePrefix index) :=
    fun index => store_outside_queue _ calls name (clientSlot_not_isQueueKey hconfig index)
  have hiff : Obtains pop store req ↔ Planted (writeAll updates fun _ => none) req := by
    rw [obtains_iff_planted hpop]
    unfold Planted
    simp only [hstore]
  refine ⟨hiff, ?_, fun hno hobtains => ?_⟩
  · -- the message at the head of the queue is one byte short
    obtain ⟨_, _, r, head, _, _, hmessage, hhead, hentry⟩ := h
    refine ⟨head, r.requestedData, Anchor.queueHead_eq_ok hhead, Anchor.queueGet_eq_ok hentry, ?_⟩
    intro rest
    rw [hmessage]
    exact decode_requestMessage_ne requestId ⟨0, url, path, .active⟩ rest
  · -- an entry under `q/` was written by an update
    obtain ⟨head, bytes, _, _, hentry, _⟩ := hiff.mp hobtains
    have hempty : writeAll updates (fun _ => none) (clientSlot PhatOracleFeed.queuePrefix head) =
        none := by
      refine writeAll_of_forall_ne (fun u hu he => hno u hu ?_) _
      rw [he, clientSlot, BoundedVec.truncateFrom_toList_of_le]
      · exact List.prefix_append _ _
      · rw [List.length_append, length_encode_uint32]
        decide
    cases hempty.symm.trans hentry

end Handoff

/-- A client that does what `PopReads` says. -/
def samplePop : Pop := fun queuePrefix store =>
  (Anchor.readIndex (store (clientSlot queuePrefix Anchor.headIndex))).map fun head =>
    (store (clientSlot queuePrefix head)).map BoundedVec.toList

/-- Account 0 claims a name and requests its feed. -/
def sampleRequestCalls : List (Call Oracle.sampleConfig UInt32) := sampleLifecycle.take 2

private theorem sampleRequestCalls_delivered : Delivered sampleChain sampleRequestCalls
    Anchor.sampleName sampleRecord.requestId ⟨[], by decide⟩ ⟨[], by decide⟩ :=
  ⟨_, List.mem_cons_of_mem _ List.mem_cons_self, sampleRequest, 0, by decide +kernel,
    by decide +kernel, by decide +kernel, by decide +kernel, by decide +kernel⟩

/-- The delivered request is not obtained. -/
theorem handoff_iff_planted_sample :
    ¬Obtains samplePop ((run apply sampleChain sampleRequestCalls).anchor.states Anchor.sampleName)
      ([], [], sampleRecord.requestId.toList) := by
  have ⟨_, _, hnever⟩ := handoff_iff_planted rfl samplePop (fun _ _ _ => rfl) 0
    sampleChain.registry sampleRequestCalls Anchor.sampleName sampleRecord.requestId
    ⟨[], by decide⟩ ⟨[], by decide⟩ sampleRequestCalls_delivered
  exact hnever (by decide +kernel)

/-- A request that is accepted and delivered need not be obtained by the contract. -/
theorem delivered_request_not_obtained :
    ¬∀ (pop : Pop) (registry : Registry.State Registry.runtimeConfig UInt32)
        (calls : List (Call Oracle.sampleConfig UInt32)) (name : H256)
        (requestId : Oracle.RequestId) (url : Registry.RegistryFeedUrl Registry.runtimeConfig)
        (path : Registry.RegistryFeedPath Registry.runtimeConfig), PopReads pop →
      Delivered (withRegistry 0 registry) calls name requestId url path →
      Obtains pop ((run apply (withRegistry 0 registry) calls).anchor.states name)
        (url.toList, path.toList, requestId.toList) := by
  intro h
  have hobtains := h samplePop sampleChain.registry sampleRequestCalls Anchor.sampleName
    sampleRecord.requestId ⟨[], by decide⟩ ⟨[], by decide⟩ (fun _ _ _ => rfl)
    sampleRequestCalls_delivered
  -- the client finds nothing under `q/`
  exact absurd (hobtains ⟨"", 0, ⟨List.replicate 32 0, rfl⟩⟩) (by decide +kernel)

end Paraxiom.Runtime
