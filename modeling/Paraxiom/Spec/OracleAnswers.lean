import Paraxiom.Spec.OracleProvenance

/-!
# Who may answer a request

`onResponse` compares the name a record declares with the name of the rollup that carries
it, and nothing else: it keeps no account of which queue a request was sent to, nor of
whether it has been answered. Any owner of a name may therefore answer any request, as
often as it likes; but always as itself, since `FeedData` is keyed by the submitter.
-/

namespace Paraxiom.Runtime

open Scale KvStore Transactional

variable {cfg : Oracle.Config} {AccountId : Type}

/-- The names of the rollups that answered a request id, one for each accepted reply. -/
def repliesTo [Codec AccountId] (requestId : Oracle.RequestId) (e : ChainEvent cfg AccountId) :
    List H256 :=
  match e.op, e.result with
  | .rollup _ name tx _, .ok _ => tx.actions.filterMap fun raw =>
    match resolve e.pre.oracle.feedRequests raw with
    | some (record, _) => if record.requestId = requestId then some name else none
    | none => none
  | _, _ => []

section Steps

variable [DecidableEq AccountId] [Codec AccountId]

/-- Every accepted reply answers as the owner of its name. In any run from any chain, an
    accepted rollup is signed by the owner of its name, and each reply in it declares that
    name, resolves to a request on file and is filed under that owner and that request: what
    `FeedData` holds after an operation is what it held before with the operation's filings
    written in order. An entry `(s, r)` only changes in a rollup signed by `s`, to the data of
    a reply that resolves to `r`. -/
theorem replies_answer_as_owner (c₀ : Chain cfg AccountId) (calls : List (Call cfg AccountId)) :
    ∀ e ∈ history apply c₀ calls,
      (∀ origin name tx nonce, e.op = .rollup origin name tx nonce → e.result = .ok () →
        ∃ who, origin = .signed who ∧ e.pre.anchor.submitterByNames.lookup name = some who ∧
          ∀ raw ∈ tx.actions, ∀ data, Anchor.decodeAction raw = some (.reply data) →
            ∃ record r, Oracle.decodeRecord data.toList = some record ∧
              record.phatContractId = name ∧
              e.pre.oracle.feedRequests record.requestId = some r ∧
              filing who (record, r) ∈ filings e) ∧
      Function.uncurry e.post.oracle.feedData =
        writeAll (filings e) (Function.uncurry e.pre.oracle.feedData) ∧
      (∀ s r, e.post.oracle.feedData s r ≠ e.pre.oracle.feedData s r →
        ∃ name tx nonce raw record, e.op = .rollup (.signed s) name tx nonce ∧
          e.result = .ok () ∧ raw ∈ tx.actions ∧
          resolve e.pre.oracle.feedRequests raw = some (record, r) ∧
          e.post.oracle.feedData s r = some record.responseData) := by
  intro e he
  obtain ⟨before, o, after, rfl, rfl⟩ := mem_history he
  have hfiled := feedData_step (run apply c₀ before) o
  refine ⟨?_, hfiled, ?_⟩
  · intro origin name tx nonce hop hres
    obtain ⟨who, rfl, howner, hreplies⟩ := rollup_event hop hres
    refine ⟨who, rfl, howner, fun raw hraw data hdata => ?_⟩
    obtain ⟨⟨record, r⟩, hresolve, hname⟩ := hreplies raw hraw data hdata
    obtain ⟨data', hdata', hrecord, hrequest⟩ := resolve_eq_some.mp hresolve
    obtain rfl := Anchor.Action.reply.inj (Option.some.inj (hdata'.symm.trans hdata))
    exact ⟨record, r, hrecord, hname, hrequest, mem_filings hop hres hraw hresolve⟩
  · intro s r hchanged
    rcases writeAll_last_writer (filings (event apply (run apply c₀ before) o))
      (Function.uncurry (run apply c₀ before).oracle.feedData) (s, r)
      with ⟨mid₁, v, mid₂, hfilings, _, hv⟩ | ⟨_, hkept⟩
    · -- the last filing of the entry comes from a reply of the rollup
      obtain ⟨name, tx, nonce, _, raw, _, record, hop, hres, hactions, hresolve, rfl, _⟩ :=
        filings_split hfilings
      exact ⟨name, tx, nonce, raw, record, hop, hres, by simp [hactions], hresolve,
        (congrFun hfiled (s, r)).trans hv⟩
    · -- without a filing the entry is as it was
      exact absurd ((congrFun hfiled (s, r)).trans hkept) hchanged

end Steps

/-- The answer of `sampleLifecycle` came from the account it is filed under. -/
theorem replies_answer_as_owner_sample :
    ∃ name tx nonce raw record,
      sampleLifecycle.getLast? = some (.rollup (.signed 0) name tx nonce) ∧ raw ∈ tx.actions ∧
      Anchor.decodeAction raw ≠ none ∧
      (run apply sampleChain sampleLifecycle).oracle.feedData 0 sampleRequest =
        some (record : Oracle.ResponseRecord UInt32).responseData := by
  have hlast := (replies_answer_as_owner sampleChain sampleLifecycle _
    (List.mem_cons_of_mem _ (List.mem_cons_of_mem _ List.mem_cons_self))).2.2 0 sampleRequest
    (by decide +kernel)
  obtain ⟨name, tx, nonce, raw, record, hop, _, hraw, hresolve, hdata⟩ := hlast
  obtain ⟨data, hdec, _⟩ := resolve_eq_some.mp hresolve
  exact ⟨name, tx, nonce, raw, record, congrArg some hop, hraw, by rw [hdec]; exact nofun, hdata⟩

/-- The name of a second contract. -/
def otherName : H256 := ⟨List.replicate 32 2, rfl⟩

/-- Account 0 requests its feed from the queue of account 1, and then answers the request
    twice itself. -/
def sampleReplay : List (Call Oracle.sampleConfig UInt32) :=
  [.claimName (.signed 0) Anchor.sampleName, .claimName (.signed 1) otherName,
    .request (.signed 0) (BoundedVec.truncateFrom _ []) 0,
    .rollup (.signed 0) Anchor.sampleName ⟨[], [sampleReply], []⟩ 0,
    .rollup (.signed 0) Anchor.sampleName ⟨[], [sampleReply], []⟩ 1]

/-- Neither is a request answered only from the name it was sent to, nor only once. -/
theorem requests_can_be_answered_by_others :
    ¬∀ (registry : Registry.State Registry.runtimeConfig UInt32)
        (calls : List (Call Oracle.sampleConfig UInt32)),
      let past := history apply (withRegistry 0 registry) calls
      ∀ e ∈ past, ∀ requestId r name, issued e = some (requestId, r) →
        Oracle.selectName Oracle.sampleConfig e.pre.anchor = some name →
        (∀ name' ∈ past.flatMap (repliesTo requestId), name' = name) ∧
          (past.flatMap (repliesTo requestId)).length ≤ 1 := by
  intro h
  have hreplies := h sampleChain.registry sampleReplay _
    (List.mem_cons_of_mem _ (List.mem_cons_of_mem _ List.mem_cons_self))
    sampleRecord.requestId sampleRequest otherName (by decide +kernel) (by decide +kernel)
  exact absurd hreplies (by decide +kernel)

end Paraxiom.Runtime
