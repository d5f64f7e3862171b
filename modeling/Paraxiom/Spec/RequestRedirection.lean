import Paraxiom.Spec.NameIsolation
import Paraxiom.Spec.PushRollupCommute
import Paraxiom.Spec.RequestIds

/-!
# Who can redirect a request

`request` sends its message to the last claimed name in storage order, and anybody can claim
a name. Calls of accounts that do not own a name leave its owner, its queue, the registry and
the block as they are (`strangerCalls_frame`), so the one thing they change about a request
to the name is which name is the last: a request stays where it was going exactly when
everything newly claimed comes before the name in storage order (`request_target_kept_iff`).
-/

namespace Paraxiom.Runtime

open Scale Transactional Anchor Except

variable {cfg : Oracle.Config} {AccountId : Type}

/-! ## Calls of strangers -/

/-- A call by which an account other than `owner` claims a name or rolls up on one. -/
def IsStrangerCall (owner : AccountId) : Call cfg AccountId → Prop
  | .claimName (.signed who) _ => who ≠ owner
  | .rollup (.signed who) _ _ _ => who ≠ owner
  | _ => False

/-- The name that a call claims. -/
def claimed : Call cfg AccountId → Option H256
  | .claimName _ m => some m
  | _ => none

/-- What such calls leave of a chain: the block, the registry, and the owner and the store of
    a name that is not theirs. -/
structure Frame (name : H256) (c c' : Chain cfg AccountId) : Prop where
  blockNumber : c'.blockNumber = c.blockNumber
  registry : c'.registry = c.registry
  anchor : AgreeOn name c.anchor c'.anchor

theorem Frame.refl (name : H256) (c : Chain cfg AccountId) : Frame name c c :=
  ⟨rfl, rfl, ⟨rfl, rfl⟩⟩

variable [DecidableEq AccountId] [Codec AccountId]

/-- A claim on another's name fails, and a claim on a free one adds it to the claimed names. -/
theorem claimName_frame {name : H256} {owner : AccountId} {c : Chain cfg AccountId}
    (howner : c.anchor.submitterByNames.lookup name = some owner) (who : AccountId) (n : H256) :
    Frame name c (step apply c (.claimName (.signed who) n)) ∧
      ∀ m, ((step apply c (.claimName (.signed who) n)).anchor.submitterByNames.lookup m).isSome ↔
        (c.anchor.submitterByNames.lookup m).isSome ∨ n = m := by
  cases hn : c.anchor.submitterByNames.lookup n with
  | none =>
    -- the claim succeeds, and the name was not the free one
    have hok : apply (.claimName (.signed who) n) c = .ok ((), _) :=
      apply_claimName_eq_ok.mpr ⟨_, claimName_eq_ok.mpr ⟨who, rfl, hn, rfl⟩, rfl⟩
    have hne : name ≠ n := by
      rintro rfl
      rw [howner] at hn
      cases hn
    rw [step_of_ok hok]
    refine ⟨⟨rfl, rfl, ⟨(AList.lookup_insert_ne hne).symm, rfl⟩⟩, fun m => ?_⟩
    by_cases hm : m = n
    · subst hm
      simp [AList.lookup_insert]
    · simp [AList.lookup_insert_ne hm, Ne.symm hm]
  | some who' =>
    -- the claim fails
    have hsame : step apply c (.claimName (.signed who) n) = c := by
      cases hres : apply (.claimName (.signed who) n) c with
      | error f => exact step_of_error hres
      | ok p =>
        obtain ⟨_, hclaim, _⟩ := apply_claimName_eq_ok.mp hres
        obtain ⟨_, _, hnone, _⟩ := claimName_eq_ok.mp hclaim
        rw [hn] at hnone
        cases hnone
    rw [hsame]
    refine ⟨Frame.refl name c, fun m => ?_⟩
    by_cases hm : m = n
    · subst hm
      simp [hn]
    · simp [Ne.symm hm]

/-- A rollup that the owner of `name` did not sign is not on `name`. -/
theorem rollup_frame {name : H256} {owner : AccountId} {c : Chain cfg AccountId}
    (howner : c.anchor.submitterByNames.lookup name = some owner) {who : AccountId}
    (hwho : who ≠ owner) (n : H256) (tx : RollupTx) (nonce : U128) :
    Frame name c (step apply c (.rollup (.signed who) n tx nonce)) ∧
      (step apply c (.rollup (.signed who) n tx nonce)).anchor.submitterByNames =
        c.anchor.submitterByNames := by
  cases hres : apply (.rollup (.signed who) n tx nonce) c with
  | error f =>
    rw [step_of_error hres]
    exact ⟨Frame.refl name c, rfl⟩
  | ok p =>
    obtain ⟨anchor, oracle, hroll, hc⟩ := apply_rollup_eq_ok.mp hres
    obtain ⟨_, hother, hnames⟩ := rollup_effect hroll
    obtain ⟨_, hsigned, hn, _⟩ := rollup_eq_ok.mp hroll
    obtain rfl := Origin.signed.inj hsigned
    have hne : name ≠ n := by
      rintro rfl
      exact hwho (Option.some.inj (hn.symm.trans howner))
    rw [step_of_ok hres, hc]
    exact ⟨⟨rfl, rfl, ⟨(congrArg (AList.lookup name) hnames).symm, (hother name hne).symm⟩⟩, hnames⟩

/-- One call of a stranger, and which names are claimed after it. -/
theorem strangerCall_frame {name : H256} {owner : AccountId} {c : Chain cfg AccountId}
    (howner : c.anchor.submitterByNames.lookup name = some owner) {o : Call cfg AccountId}
    (ho : IsStrangerCall owner o) :
    Frame name c (step apply c o) ∧
      ∀ m, ((step apply c o).anchor.submitterByNames.lookup m).isSome ↔
        (c.anchor.submitterByNames.lookup m).isSome ∨ claimed o = some m := by
  unfold IsStrangerCall at ho
  split at ho
  · rename_i who n
    obtain ⟨hframe, hclaimed⟩ := claimName_frame howner who n
    exact ⟨hframe, fun m => by rw [hclaimed m, claimed, Option.some.injEq]⟩
  · rename_i who n tx nonce
    obtain ⟨hframe, hnames⟩ := rollup_frame howner ho n tx nonce
    exact ⟨hframe, fun m => by rw [hnames]; simp [claimed]⟩
  · cases ho

/-- Any number of calls of strangers. -/
theorem strangerCalls_frame {name : H256} {owner : AccountId} {c : Chain cfg AccountId}
    (howner : c.anchor.submitterByNames.lookup name = some owner)
    {calls : List (Call cfg AccountId)} (hcalls : ∀ o ∈ calls, IsStrangerCall owner o) :
    Frame name c (run apply c calls) ∧
      ∀ m, ((run apply c calls).anchor.submitterByNames.lookup m).isSome ↔
        (c.anchor.submitterByNames.lookup m).isSome ∨ ∃ o ∈ calls, claimed o = some m := by
  induction calls generalizing c with
  | nil => exact ⟨Frame.refl name c, fun m => by simp⟩
  | cons o calls ih =>
    obtain ⟨hframe, hclaimed⟩ := strangerCall_frame howner (hcalls o List.mem_cons_self)
    have howner' : (step apply c o).anchor.submitterByNames.lookup name = some owner := by
      rw [← hframe.anchor.owner, howner]
    obtain ⟨hframe', hclaimed'⟩ := ih howner' fun o' ho' => hcalls o' (List.mem_cons_of_mem o ho')
    rw [run_cons]
    refine ⟨⟨?_, ?_, ⟨?_, ?_⟩⟩, fun m => ?_⟩
    · rw [hframe'.blockNumber, hframe.blockNumber]
    · rw [hframe'.registry, hframe.registry]
    · rw [hframe.anchor.owner, hframe'.anchor.owner]
    · rw [hframe.anchor.store, hframe'.anchor.store]
    · rw [hclaimed' m, hclaimed m, or_assoc, List.exists_mem_cons_iff]

/-! ## Where a request goes -/

/-- A request is accepted and does to the anchor what pushing `data` to the queue of `name`
    does, under the id `id`. -/
def PushesTo (c : Chain cfg AccountId) (origin : Origin AccountId)
    (key : Registry.RegistryFeedKey cfg.registry) (nonce : U128) (name : H256) (data : ValueBytes)
    (id : UInt32) : Prop :=
  ∃ c', apply (.request origin key nonce) c = .ok ((), c') ∧
    pushMessage cfg.anchor name data c.anchor = .ok (id, c'.anchor)

/-- A request pushes to a name exactly when its guards hold and the name is the last one. -/
theorem pushesTo_iff {c : Chain cfg AccountId} {origin : Origin AccountId}
    {key : Registry.RegistryFeedKey cfg.registry} {nonce : U128} {name : H256} {data : ValueBytes}
    {id : UInt32} : PushesTo c origin key nonce name data id ↔
      ∃ who feed anchor, origin = .signed who ∧ c.registry.apiFeeds who key = some feed ∧
        feed.status = .active ∧
        BoundedVec.tryFrom 2048 (Oracle.requestMessage
          (Oracle.drawRequestId cfg c.blockNumber nonce) feed) = some data ∧
        Oracle.selectName cfg c.anchor = some name ∧
        pushMessage cfg.anchor name data c.anchor = .ok (id, anchor) := by
  constructor
  · -- what the request pushed, and where, shows in the anchor it left
    rintro ⟨c', hok, hpush⟩
    obtain ⟨anchor, oracle, hrequest, rfl⟩ := apply_request_eq_ok.mp hok
    obtain ⟨who, feed, data', name', id', horigin, hfeed, hactive, hdata, hname, hpush', _⟩ :=
      Oracle.request_eq_ok.mp hrequest
    obtain ⟨rfl, rfl, rfl⟩ := pushMessage_inj hpush hpush'
    exact ⟨who, feed, anchor, horigin, hfeed, hactive, hdata, hname, hpush⟩
  · rintro ⟨who, feed, anchor, horigin, hfeed, hactive, hdata, hname, hpush⟩
    obtain ⟨oracle, hrequest⟩ : ∃ oracle, Oracle.request c.blockNumber c.registry origin key nonce
        (c.anchor, c.oracle) = .ok (anchor, oracle) :=
      ⟨_, Oracle.request_eq_ok.mpr
        ⟨who, feed, data, name, id, horigin, hfeed, hactive, hdata, hname, hpush, rfl⟩⟩
    exact ⟨_, apply_request_eq_ok.mpr ⟨anchor, oracle, hrequest, rfl⟩, hpush⟩

/-! ## Redirection -/

/-- Everything that the calls newly claim comes before `name` in storage order. -/
def ClaimsBefore (c : Chain cfg AccountId) (name : H256) (calls : List (Call cfg AccountId)) :
    Prop :=
  ∀ o ∈ calls, ∀ m, claimed o = some m → c.anchor.submitterByNames.lookup m = none →
    cfg.anchor.storageHash m < cfg.anchor.storageHash name

/-- The last name stays the last exactly when all newly claimed names come before it. -/
theorem selectName_run_iff {name : H256} {owner : AccountId} {c : Chain cfg AccountId}
    (howner : c.anchor.submitterByNames.lookup name = some owner)
    (hname : Oracle.selectName cfg c.anchor = some name) {calls : List (Call cfg AccountId)}
    (hcalls : ∀ o ∈ calls, IsStrangerCall owner o) :
    Oracle.selectName cfg (run apply c calls).anchor = some name ↔ ClaimsBefore c name calls := by
  obtain ⟨hframe, hclaimed⟩ := strangerCalls_frame howner hcalls
  have hinj := cfg.anchor.storageHash_injective
  obtain ⟨_, hlast⟩ := (StorageMap.getLast?_iterKeys hinj).mp hname
  rw [Oracle.selectName, StorageMap.getLast?_iterKeys hinj]
  constructor
  · rintro ⟨_, hlast'⟩ o ho m hm hfree
    have hle := hlast' m ((hclaimed m).mpr (.inr ⟨o, ho, hm⟩))
    refine Nat.lt_of_le_of_ne hle fun heq => ?_
    -- the name itself was taken
    rw [hinj heq, howner] at hfree
    cases hfree
  · intro hbefore
    refine ⟨(hclaimed name).mpr (.inl (by rw [howner]; rfl)), fun m hm => ?_⟩
    -- a name claimed in the end was claimed before or is newly claimed
    cases hfree : c.anchor.submitterByNames.lookup m with
    | some _ => exact hlast m (by rw [hfree]; rfl)
    | none =>
      rcases (hclaimed m).mp hm with hm | ⟨o, ho, hm⟩
      · rw [hfree] at hm
        cases hm
      · exact Nat.le_of_lt (hbefore o ho m hm hfree)

/-- When strangers redirect or block a request. A request that pushes to a name still pushes
    to it after any calls of accounts that do not own the name, exactly when every name that
    these calls newly claim comes before it in storage order; and then it pushes the same
    message under the same id. -/
theorem request_target_kept_iff (c : Chain cfg AccountId) (origin : Origin AccountId)
    (key : Registry.RegistryFeedKey cfg.registry) (nonce : U128) (name : H256) (data : ValueBytes)
    (id : UInt32) (owner : AccountId) (calls : List (Call cfg AccountId))
    (hpush : PushesTo c origin key nonce name data id)
    (howner : c.anchor.submitterByNames.lookup name = some owner)
    (hcalls : ∀ o ∈ calls, IsStrangerCall owner o) :
    ((∃ data' id', PushesTo (run apply c calls) origin key nonce name data' id') ↔
      ClaimsBefore c name calls) ∧
    (ClaimsBefore c name calls → PushesTo (run apply c calls) origin key nonce name data id) := by
  obtain ⟨who, feed, anchor, horigin, hfeed, hactive, hdata, hname, hok⟩ := pushesTo_iff.mp hpush
  have hselect := selectName_run_iff howner hname hcalls
  have hstill : ClaimsBefore c name calls →
      PushesTo (run apply c calls) origin key nonce name data id := by
    intro hbefore
    obtain ⟨hframe, _⟩ := strangerCalls_frame howner hcalls
    -- the queue of the name takes the push as it did
    have hrelated : Related (SameStep (AgreeOn name)) (pushMessage cfg.anchor name data c.anchor)
        (pushMessage cfg.anchor name data (run apply c calls).anchor) :=
      pushMessage_related hframe.anchor data
    have hsame := hrelated.eq_ok_or_eq_error
    rw [hok] at hsame
    obtain ⟨_, ⟨id', anchor'⟩, hp, hok', hid, _⟩ | ⟨_, hp, _⟩ := hsame
    · obtain rfl := Except.ok.inj hp
      obtain rfl : id = id' := hid
      refine pushesTo_iff.mpr ⟨who, feed, anchor', horigin, ?_, hactive, ?_, hselect.mpr hbefore,
        hok'⟩
      · rw [hframe.registry, hfeed]
      · rw [hframe.blockNumber, hdata]
    · cases hp
  refine ⟨⟨?_, fun hbefore => ⟨data, id, hstill hbefore⟩⟩, hstill⟩
  rintro ⟨data', id', hpush'⟩
  obtain ⟨_, _, _, _, _, _, _, hname', _⟩ := pushesTo_iff.mp hpush'
  exact hselect.mp hname'

/-! ## Two strangers -/

/-- Account 0 owns a name, and every account has an active feed. -/
def claimedChain : Chain Oracle.sampleConfig UInt32 :=
  run apply sampleChain [.claimName (.signed 0) sampleName]

/-- The message of account 0's request, of an empty url and path. -/
def claimedChainMessage : ValueBytes :=
  BoundedVec.truncateFrom 2048 (encode (Oracle.drawRequestId Oracle.sampleConfig 0 0,
    (BoundedVec.truncateFrom _ [] : Registry.RegistryFeedUrl Registry.runtimeConfig),
    (BoundedVec.truncateFrom _ [] : Registry.RegistryFeedPath Registry.runtimeConfig)))

/-- Account 0's request goes to the name it owns. -/
private theorem claimedChain_pushesTo : ∃ id, PushesTo claimedChain (.signed 0)
    (BoundedVec.truncateFrom _ []) 0 sampleName claimedChainMessage id := by
  have hclaimed : (claimedChain.anchor.submitterByNames.lookup sampleName).isSome := by
    decide +kernel
  have hlen : (queueLen Oracle.sampleConfig.anchor sampleName claimedChain.anchor :
      Exec Error UInt32) = .ok 0 := by decide +kernel
  obtain ⟨id, anchor, hok⟩ := (exists_pushMessage_eq_ok claimedChainMessage).mpr
    ⟨hclaimed, 0, hlen, by decide⟩
  exact ⟨id, pushesTo_iff.mpr ⟨0, _, anchor, rfl, rfl, rfl, by decide +kernel,
    by decide +kernel, hok⟩⟩

/-- A name before `sampleName` in storage order, by `Blake2_128` as by `sampleConfig`. -/
def earlierName : H256 := ⟨List.replicate 31 1 ++ [0], rfl⟩

/-- A name after `sampleName` in storage order, by `Blake2_128` as by `sampleConfig`. -/
def laterName : H256 := ⟨2 :: List.replicate 31 2, rfl⟩

/-- A stranger who claims an earlier name and rolls up on it changes nothing. -/
theorem request_target_kept_iff_sample : ∃ id,
    PushesTo (run apply claimedChain [.claimName (.signed 1) earlierName,
      .rollup (.signed 1) earlierName ⟨[], [], []⟩ 0]) (.signed 0) (BoundedVec.truncateFrom _ []) 0
      sampleName claimedChainMessage id := by
  obtain ⟨id, hpush⟩ := claimedChain_pushesTo
  have hstranger : ∀ o ∈ ([.claimName (.signed 1) earlierName,
      .rollup (.signed 1) earlierName ⟨[], [], []⟩ 0] : List (Call Oracle.sampleConfig UInt32)),
      IsStrangerCall 0 o := by
    intro o ho
    rcases List.mem_cons.mp ho with rfl | ho
    · exact (by decide : (1 : UInt32) ≠ 0)
    · obtain rfl := List.mem_singleton.mp ho
      exact (by decide : (1 : UInt32) ≠ 0)
  refine ⟨id, (request_target_kept_iff claimedChain (.signed 0) _ 0 sampleName
    claimedChainMessage id 0 _ hpush (by decide +kernel) hstranger).2 ?_⟩
  intro o ho m hm _
  rcases List.mem_cons.mp ho with rfl | ho
  · obtain rfl := Option.some.inj hm
    decide +kernel
  · obtain rfl := List.mem_singleton.mp ho
    cases hm

/-- A stranger who claims a later name takes the requests over. -/
theorem request_redirected : ¬∀ (c : Chain Oracle.sampleConfig UInt32) (origin : Origin UInt32)
    (key : Registry.RegistryFeedKey Oracle.sampleConfig.registry) (nonce : U128) (name : H256)
    (data : ValueBytes) (id owner : UInt32) (calls : List (Call Oracle.sampleConfig UInt32)),
    PushesTo c origin key nonce name data id →
    c.anchor.submitterByNames.lookup name = some owner →
    (∀ o ∈ calls, IsStrangerCall owner o) →
    ∃ data' id', PushesTo (run apply c calls) origin key nonce name data' id' := by
  intro h
  obtain ⟨id, hpush⟩ := claimedChain_pushesTo
  have hstranger : ∀ o ∈ ([.claimName (.signed 1) laterName] :
      List (Call Oracle.sampleConfig UInt32)), IsStrangerCall 0 o := by
    intro o ho
    obtain rfl := List.mem_singleton.mp ho
    exact (by decide : (1 : UInt32) ≠ 0)
  obtain ⟨_, _, hpush'⟩ := h claimedChain (.signed 0) _ 0 sampleName _ id 0 _ hpush
    (by decide +kernel) hstranger
  obtain ⟨_, _, _, _, _, _, _, hname, _⟩ := pushesTo_iff.mp hpush'
  exact absurd hname (by decide +kernel)

end Paraxiom.Runtime
