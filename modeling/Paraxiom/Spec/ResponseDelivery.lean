import Paraxiom.Phat.OracleFeed
import Paraxiom.Spec.OracleProvenance

/-!
# Which responses can be delivered

The contract and the pallet declare their response records separately. Field by field they
are written alike, so what the contract encodes the pallet decodes (`decodeRecord_encode`).
On the way an encoded response is wrapped as `Action::Reply` and must fit an entry of
`RollupTx.actions`: 256 bytes, although the record alone may carry 2048 bytes of data.

## Key results

- `length_encode_response`, `length_encodeReply`: the sizes of the layers
- `deliverable_iff`: a response can be delivered exactly up to 147 bytes of data
- `feedRequest_fits`: what `feed_request` sends is within this bound
- `filed_of_fits`: on the chain, a response that can be delivered is filed
-/

namespace Paraxiom

open Scale Anchor

/-! ## The two records -/

namespace PhatOracleFeed

/-- The pallet's record with the fields of the contract's. -/
def ResponseRecord.received (r : ResponseRecord) (h : r.data.length ≤ 2048) :
    Oracle.ResponseRecord AccountId :=
  ⟨r.owner, r.contractId, r.requestId, ⟨r.data, h⟩, r.timestampMs⟩

/-- Both records are written alike: a bounded vector is written as its bytes. -/
theorem encode_received (r : ResponseRecord) (h : r.data.length ≤ 2048) :
    encode (r.received h) = encode r := rfl

theorem decodeRecord_encode (r : ResponseRecord) (h : r.data.length ≤ 2048) :
    Oracle.decodeRecord (encode r) = some (r.received h) := by
  rw [← encode_received r h, Oracle.decodeRecord, decode_encode]
  rfl

/-- Three 32-byte fields, the data with its compact length, and a `u64`. -/
theorem length_encode_response (r : ResponseRecord) :
    (encode r).length = 104 + compactLength r.data.length + r.data.length := by
  show (encode (r.owner, r.contractId, r.requestId, r.data, r.timestampMs)).length = _
  simp only [length_encode_prod, length_encode_fixedBytes, length_encode_bytes,
    length_encode_uint64]
  omega

end PhatOracleFeed

/-! ## The action around them -/

namespace Anchor

/-- The encoding of `Action::Reply` around any byte string. -/
def encodeReply (data : Bytes) : Bytes := 0 :: encode data

theorem encode_reply (data : ActionBytes) : encode (Action.reply data) = encodeReply data.toList :=
  rfl

theorem length_encodeReply (data : Bytes) :
    (encodeReply data).length = 1 + compactLength data.length + data.length := by
  simp only [encodeReply, List.length_cons, length_encode_bytes]
  omega

/-- An entry that holds an encoded reply decodes to it. -/
theorem decodeAction_of_encodeReply {data : Bytes} {entry : ActionBytes}
    (h : BoundedVec.tryFrom 256 (encodeReply data) = some entry) :
    ∃ reply : ActionBytes, reply.toList = data ∧ decodeAction entry = some (.reply reply) := by
  obtain ⟨rfl, hle⟩ := BoundedVec.tryFrom_eq_some h
  have hdata : data.length ≤ 256 := by
    rw [length_encodeReply] at hle
    omega
  refine ⟨⟨data, hdata⟩, rfl, ?_⟩
  have henc := encode_reply ⟨data, hdata⟩
  rw [decodeAction, BoundedVec.truncateFrom_toList_of_le hle, ← henc, decode_encode]
  rfl

end Anchor

/-! ## Delivery -/

namespace PhatOracleFeed

/-- A response of the contract gets through: wrapped as `Action::Reply` it fits an entry of
    `RollupTx.actions`, the entry decodes to the reply with the same bytes, and these decode
    with the pallet's record type to the same fields. -/
def Deliverable (r : ResponseRecord) : Prop :=
  ∃ (entry reply : ActionBytes) (record : Oracle.ResponseRecord AccountId),
    BoundedVec.tryFrom 256 (encodeReply (encode r)) = some entry ∧
    decodeAction entry = some (.reply reply) ∧ reply.toList = encode r ∧
    Oracle.decodeRecord reply.toList = some record ∧ record.owner = r.owner ∧
    record.phatContractId = r.contractId ∧ record.requestId = r.requestId ∧
    record.responseData.toList = r.data ∧ record.timestampMs = r.timestampMs

/-- The wrapped response fits 256 bytes up to 147 bytes of data: from 64 on, both lengths on
    the way take two bytes. -/
theorem length_encodeReply_response_le_iff (r : ResponseRecord) :
    (encodeReply (encode r)).length ≤ 256 ↔ r.data.length ≤ 147 := by
  rw [length_encodeReply, length_encode_response]
  generalize r.data.length = n
  -- the widths of the two lengths, of the data and of the record around it
  have hcompact := compactLength_cases n
  have houter := compactLength_cases (104 + compactLength n + n)
  omega

/-- A response can be delivered exactly up to 147 bytes of data. -/
theorem deliverable_iff (r : ResponseRecord) : Deliverable r ↔ r.data.length ≤ 147 := by
  rw [← length_encodeReply_response_le_iff]
  constructor
  · rintro ⟨entry, _, _, hfits, _⟩
    exact (BoundedVec.tryFrom_eq_some hfits).2
  · -- once it fits, every layer is read back as it was written
    intro hle
    have hdata : r.data.length ≤ 2048 := by
      have h147 := (length_encodeReply_response_le_iff r).mp hle
      omega
    have hfits := BoundedVec.tryFrom_of_le hle
    obtain ⟨reply, hreply, hdecode⟩ := decodeAction_of_encodeReply hfits
    refine ⟨_, reply, r.received hdata, hfits, hdecode, hreply, ?_, rfl, rfl, rfl, rfl, rfl⟩
    rw [hreply, decodeRecord_encode r hdata]

/-- A response of 148 bytes of data. -/
def longResponse : ResponseRecord :=
  ⟨sampleName, sampleName, sampleName, List.replicate 148 0, 0⟩

/-- The pallet's type admits its data, but no entry of a rollup holds it. -/
theorem long_response_not_delivered :
    ¬∀ r : ResponseRecord, r.data.length ≤ 2048 → Deliverable r := by
  intro h
  have hlen : longResponse.data.length = 148 := List.length_replicate
  obtain ⟨_, _, _, hfits, _⟩ := h longResponse (by omega)
  have hle := (length_encodeReply_response_le_iff longResponse).mp
    (BoundedVec.tryFrom_eq_some hfits).2
  omega

/-- What `feed_request` hands to the client always fits: its data is 16 bytes long. -/
theorem feedRequest_fits {Submittable : Type} {connect : Config → Option Store}
    {commit : Store → Bytes → Option (Option Submittable)}
    {submit : Submittable → FixedBytes 32 → Option Bytes} {config : Option Config}
    {owner contractId : AccountId} {blockTimestamp : UInt64} {request : RequestRecord}
    {txId : Option Bytes} (h : feedRequest connect commit submit config owner contractId
      blockTimestamp request = .ok txId) :
    ∃ client reply submittable, commit client reply = some submittable ∧
      (encodeReply reply).length ≤ 256 := by
  obtain ⟨config, _, h⟩ := Exec.bind_eq_ok.mp h
  obtain ⟨client, _, h⟩ := Exec.bind_eq_ok.mp h
  obtain ⟨submittable, hcommit, _⟩ := Exec.bind_eq_ok.mp h
  refine ⟨client, _, submittable, okOr_eq_ok.mp hcommit, ?_⟩
  have hlen : (response owner contractId blockTimestamp request).data.length = 16 :=
    length_writeLE 16 _
  exact (length_encodeReply_response_le_iff _).mpr (by omega)

end PhatOracleFeed

/-! ## On the chain -/

namespace Runtime

open Transactional

variable {cfg : Oracle.Config}

/-- An entry with a response to a request on file, rolled up by the owner of the contract's
    name, is accepted and the data filed under the request. -/
theorem filed_of_fits {c : Chain cfg PhatOracleFeed.AccountId} {r : PhatOracleFeed.ResponseRecord}
    {entry : ActionBytes} (hfits : BoundedVec.tryFrom 256 (encodeReply (encode r)) = some entry)
    {who : PhatOracleFeed.AccountId}
    (howner : c.anchor.submitterByNames.lookup r.contractId = some who)
    {request : Oracle.Request cfg PhatOracleFeed.AccountId}
    (hrequest : c.oracle.feedRequests r.requestId = some request) (nonce : U128) :
    (event apply c (.rollup (.signed who) r.contractId ⟨[], [entry], []⟩ nonce)).result = .ok () ∧
      ((step apply c (.rollup (.signed who) r.contractId ⟨[], [entry], []⟩
        nonce)).oracle.feedData who request).map BoundedVec.toList = some r.data := by
  obtain ⟨reply, hreply, hdecode⟩ := decodeAction_of_encodeReply hfits
  have hdata : r.data.length ≤ 2048 := by
    have hle := (PhatOracleFeed.length_encodeReply_response_le_iff r).mp
      (BoundedVec.tryFrom_eq_some hfits).2
    omega
  -- the handler files the decoded record
  obtain ⟨oracle, hanswer, hfiled⟩ : ∃ oracle, Oracle.onResponse r.contractId who reply.toList
      c.oracle = .ok oracle ∧ oracle.feedData who request = some ⟨r.data, hdata⟩ := by
    refine ⟨_, Oracle.onResponse_eq_ok.mpr ⟨r.received hdata, request, ?_, rfl, hrequest, rfl⟩, ?_⟩
    · rw [hreply, PhatOracleFeed.decodeRecord_encode r hdata]
    · exact Oracle.insertData_self c.oracle who request ⟨r.data, hdata⟩
  have haction : execAction cfg.anchor Oracle.onResponse r.contractId who (c.anchor, c.oracle)
      entry = .ok (c.anchor, oracle) := by
    rw [execAction_of_reply hdecode, hanswer]
    rfl
  obtain ⟨anchor, hroll⟩ : ∃ anchor, rollup cfg.anchor Oracle.onResponse (.signed who) r.contractId
      ⟨[], [entry], []⟩ nonce (c.anchor, c.oracle) = .ok (anchor, oracle) := by
    refine ⟨_, rollup_eq_ok.mpr ⟨who, rfl, howner, fun _ hcond => absurd hcond List.not_mem_nil,
      (c.anchor, oracle), ?_, rfl⟩⟩
    rw [List.foldlM_cons, applyUpdates_nil, haction]
    rfl
  have happly : apply (.rollup (.signed who) r.contractId ⟨[], [entry], []⟩ nonce) c =
      .ok ((), { c with anchor, oracle }) := apply_rollup_eq_ok.mpr ⟨anchor, oracle, hroll, rfl⟩
  refine ⟨event_result_eq_ok.mpr (by rw [step_of_ok happly, happly]), ?_⟩
  rw [step_of_ok happly, hfiled]
  rfl

end Runtime

end Paraxiom
