import Paraxiom.ForStd.Unwinding
import Paraxiom.Spec.QuorumMedian

/-!
# What the para-oracle's storage determines

`SameStorage` relates two states whose storage cannot be told apart: the double maps have
the same entries, though perhaps inserted in another order, and the rest is equal. The maps
are enumerated in the order of their hashes, so what the pallet computes from such states
is the same: `dispatch_related` takes this through every operation.
-/

namespace Paraxiom.ParaOracle

open Scale Transactional

variable {AccountId : Type} [DecidableEq AccountId] {cfg : Config AccountId}

/-- The storage items `ApiFeeds`, `RawValues`, `Values` and `HasDispatched` are the same. -/
structure SameStorage (s s' : State cfg) : Prop where
  apiFeeds : ∀ k, s.apiFeeds.lookup k = s'.apiFeeds.lookup k
  rawValues : ∀ k, s.rawValues.lookup k = s'.rawValues.lookup k
  values : s.values = s'.values
  hasDispatched : s.hasDispatched = s'.hasDispatched

namespace SameStorage

variable {s s' s'' : State cfg}

/-- A storage is the same as itself. -/
theorem refl (s : State cfg) : SameStorage s s :=
  ⟨fun _ => rfl, fun _ => rfl, rfl, rfl⟩

/-- The relation does not tell its sides apart. -/
theorem symm (h : SameStorage s s') : SameStorage s' s :=
  ⟨fun k => (h.apiFeeds k).symm, fun k => (h.rawValues k).symm, h.values.symm,
    h.hasDispatched.symm⟩

/-- Two runs may be compared by way of a third. -/
theorem trans (h : SameStorage s s') (h' : SameStorage s' s'') : SameStorage s s'' :=
  ⟨fun k => (h.apiFeeds k).trans (h'.apiFeeds k), fun k => (h.rawValues k).trans (h'.rawValues k),
    h.values.trans h'.values, h.hasDispatched.trans h'.hasDispatched⟩

/-! ## Combining -/

/-- The raw values of a key are enumerated in the order of their hashes, and so in the same order.
    -/
theorem readRawValues_eq (h : SameStorage s s') (key : OracleKey cfg.strLimit) :
    readRawValues key s = readRawValues key s' :=
  readRawValues_congr fun c => h.rawValues (c, key)

/-- What the raw values of a key combine to is the same. -/
theorem combined_eq (h : SameStorage s s') (now : U128) (key : OracleKey cfg.strLimit) :
    combined now key s = combined now key s' := by
  rw [combined, combined, h.readRawValues_eq, h.values]

/-- The same raw value goes into both storages. -/
theorem insertRaw (h : SameStorage s s') (cid : CreatorId AccountId)
    (key : OracleKey cfg.strLimit) (x : TimestampedValue) :
    SameStorage (s.insertRaw cid key x) (s'.insertRaw cid key x) where
  apiFeeds := h.apiFeeds
  rawValues := by
    intro (c, k)
    rw [lookup_insertRaw, lookup_insertRaw, h.rawValues]
  values := h.values
  hasDispatched := h.hasDispatched

/-- The same entry leads from the same storage to the same storage. -/
theorem feedEntry (h : SameStorage s s') (now : U128) (cid : CreatorId AccountId)
    (entry : OracleKey cfg.strLimit × Int) :
    SameStorage (feedEntry now cid s entry) (feedEntry now cid s' entry) := by
  obtain ⟨key, value⟩ := entry
  have hraw := h.insertRaw cid key ⟨value, now⟩
  unfold ParaOracle.feedEntry
  dsimp only
  rw [hraw.combined_eq]
  cases combined now key (s'.insertRaw cid key ⟨value, now⟩) with
  | none => exact hraw
  | some x =>
    -- the same value is published over the same published values
    refine ⟨hraw.apiFeeds, hraw.rawValues, ?_, hraw.hasDispatched⟩
    exact congrArg (fun values => Function.update values key (some x)) hraw.values

/-- So does a whole feed. -/
theorem feedEntries (h : SameStorage s s') (now : U128) (cid : CreatorId AccountId)
    (values : List (OracleKey cfg.strLimit × Int)) :
    SameStorage (feedEntries now cid values s) (feedEntries now cid values s') := by
  induction values generalizing s s' with
  | nil => exact h
  | cons e values ih => exact ih (h.feedEntry now cid e)

end SameStorage

/-! ## Operations -/

section Operations

open Except

variable {s s' : State cfg}

/-- A feed is taken from both storages or from neither. -/
theorem feed_related (h : SameStorage s s') (now : U128) (cid : CreatorId AccountId)
    (values : List (OracleKey cfg.strLimit × Int)) :
    Related SameStorage (feed now cid values s) (feed now cid values s') := by
  rw [feed_eq, feed_eq, h.hasDispatched]
  split
  · -- the set takes the creator on both sides
    refine .ok ?_
    have hmark : SameStorage (s.markDispatched cid) (s'.markDispatched cid) :=
      ⟨h.apiFeeds, h.rawValues, h.values,
        by rw [State.markDispatched, State.markDispatched, h.hasDispatched]⟩
    have hloop := hmark.feedEntries now cid values
    exact ⟨hloop.apiFeeds, hloop.rawValues, hloop.values, hloop.hasDispatched⟩
  · exact .error _

/-- An endpoint is stored over whatever there was. -/
theorem doSubmitApi_related (h : SameStorage s s') (block : BlockNumber)
    (cid : CreatorId AccountId) (key : OracleKey cfg.strLimit) (url vpath : Bytes) :
    Related SameStorage (doSubmitApi block cid key url vpath s)
      (doSubmitApi block cid key url vpath s') := by
  refine .ok ⟨fun k => ?_, h.rawValues, h.values, h.hasDispatched⟩
  by_cases hk : k = (cid, key)
  · rw [hk, AList.lookup_insert, AList.lookup_insert]
  · rw [AList.lookup_insert_ne hk, AList.lookup_insert_ne hk, h.apiFeeds]

/-- An endpoint is there to be removed in both storages or in neither. -/
theorem doRemoveApi_related (h : SameStorage s s') (cid : CreatorId AccountId)
    (key : OracleKey cfg.strLimit) :
    Related SameStorage (doRemoveApi cid key s) (doRemoveApi cid key s') := by
  have hmem : (cid, key) ∈ s.apiFeeds ↔ (cid, key) ∈ s'.apiFeeds := by
    rw [← AList.lookup_isSome, ← AList.lookup_isSome, h.apiFeeds]
  unfold doRemoveApi
  dsimp only
  rw [h.apiFeeds]
  by_cases hexists : (cid, key) ∈ s'.apiFeeds
  · -- what is removed is the endpoint of the key, and no other
    rw [if_pos (hmem.mpr hexists), if_pos hexists]
    refine Related.bind_same fun feed => .ok ⟨fun k => ?_, h.rawValues, h.values, h.hasDispatched⟩
    by_cases hk : k = (cid, key)
    · rw [hk, AList.lookup_erase, AList.lookup_erase]
    · rw [AList.lookup_erase_ne hk, AList.lookup_erase_ne hk, h.apiFeeds]
  · rw [if_neg (mt hmem.mp hexists), if_neg hexists]
    exact .error _

/-- A query is answered with the published value, which is the same. -/
theorem xcmQueryData_related (h : SameStorage s s') (origin : Origin AccountId)
    (key : OracleKey cfg.strLimit) :
    Related SameStorage (xcmQueryData origin key s) (xcmQueryData origin key s') := by
  unfold xcmQueryData get
  rw [h.values]
  refine Related.bind_same fun id => ?_
  cases s'.values key with
  | none => exact .error _
  | some val =>
    exact Related.bind_same fun _ => .ok ⟨h.apiFeeds, h.rawValues, h.values, h.hasDispatched⟩

/-- An operation does the same from the same storage. -/
theorem dispatch_related (h : SameStorage s s') (op : Op cfg) :
    Related SameStorage (dispatch op s) (dispatch op s') := by
  cases op with
  | feedData now origin values => exact Related.bind_same fun who => feed_related h ..
  | xcmFeedData now origin values => exact Related.bind_same fun id => feed_related h ..
  | xcmQueryData origin key => exact xcmQueryData_related h origin key
  | submitApi block origin key url vpath =>
    exact Related.bind_same fun who => doSubmitApi_related h ..
  | removeApi origin key => exact Related.bind_same fun who => doRemoveApi_related h ..
  | xcmSubmitApi block origin key url vpath =>
    exact Related.bind_same fun id => doSubmitApi_related h ..
  | xcmRemoveApi origin key => exact Related.bind_same fun id => doRemoveApi_related h ..
  | onFinalize => exact .ok ⟨h.apiFeeds, h.rawValues, h.values, rfl⟩

/-- An operation of a run gives the same answer, and keeps the storages the same. -/
theorem apply_related (h : SameStorage s s') (op : Op cfg) :
    Related (SameStep SameStorage) (apply op s) (apply op s') :=
  (dispatch_related h op).bind fun _ _ hnext => .ok ⟨rfl, hnext⟩

end Operations

end Paraxiom.ParaOracle
