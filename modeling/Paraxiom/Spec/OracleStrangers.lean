import Paraxiom.Spec.OneFeedPerBlock
import Paraxiom.Spec.ParaOracleStorage

/-!
# Strangers at the para-oracle

The signed calls do not ask whether their caller is one of the `members`. A stranger's call
leaves the storage as it is exactly if it is idle: a feed that is rejected, an endpoint that
stands there already, the removal of one that does not exist. A run in which strangers only
make idle calls is, for everyone else, the run without them; any other call of theirs
changes the storage.
-/

namespace Paraxiom.ParaOracle

open Scale Transactional

variable {AccountId : Type} {cfg : Config AccountId}

/-! ## Strangers and their calls -/

/-- The account that signed a `feed_data`, `submit_api` or `remove_api`. -/
def Op.caller? : Op cfg → Option AccountId
  | .feedData _ (.signed who) _ => some who
  | .submitApi _ (.signed who) _ _ _ => some who
  | .removeApi (.signed who) _ => some who
  | _ => none

variable [DecidableEq AccountId]

/-- A signed call of an account that is not a member. -/
def Op.byStranger (op : Op cfg) : Bool := op.caller?.any (· ∉ cfg.members)

/-- A signed call that finds nothing to do: the feeder is in the set of the block or the set
    is full, the endpoint is the one that is stored, or there is none to remove. -/
def Op.Idle (bound : Nat) (op : Op cfg) (s : State cfg) : Prop :=
  match op with
  | .feedData _ (.signed who) _ =>
    .accountId who ∈ s.hasDispatched ∨ bound ≤ s.hasDispatched.length
  | .submitApi block (.signed who) key url vpath =>
    s.apiFeeds.lookup (.accountId who, key) = some ⟨block, some url, some vpath⟩
  | .removeApi (.signed who) key => s.apiFeeds.lookup (.accountId who, key) = none
  | _ => True

/-! ## What a signed call leaves -/

section Calls

variable {s : State cfg} {who : AccountId}

/-- A feed leaves the storage if and only if the set refuses its creator. -/
theorem sameStorage_feedData_iff {le : CreatorId AccountId → CreatorId AccountId → Bool}
    {bound : Nat} (hset : cfg.orderedSetInsert = OrderedSet.insert le bound) (now : U128)
    (values : List (OracleKey cfg.strLimit × Int)) :
    SameStorage s (step apply s (.feedData now (.signed who) values)) ↔
      .accountId who ∈ s.hasDispatched ∨ bound ≤ s.hasDispatched.length := by
  have hfeed : (Op.feedData now (.signed who) values : Op cfg).feed? = some _ := rfl
  by_cases htaken : (cfg.orderedSetInsert (.accountId who) s.hasDispatched).1 = true
  · -- the set has one element more
    have hpost := hasDispatched_step_of_feed hfeed htaken
    rw [hset] at htaken hpost
    obtain ⟨hnew, hroom⟩ := OrderedSet.insert_fst.mp htaken
    have hlen := (OrderedSet.insert_snd_perm htaken).length_eq
    rw [← hpost, List.length_cons] at hlen
    constructor
    · intro hsame
      rw [← hsame.hasDispatched] at hlen
      omega
    · rintro (hmem | hfull)
      · exact absurd hmem hnew
      · omega
  · -- the feed is rejected and nothing changes
    rw [step_of_refused hfeed htaken]
    rw [hset, OrderedSet.insert_fst] at htaken
    refine iff_of_true (SameStorage.refl s) ?_
    by_contra hout
    push Not at hout
    exact htaken hout

/-- A submission leaves the storage if and only if the endpoint is stored already. -/
theorem sameStorage_submitApi_iff (block : BlockNumber) (key : OracleKey cfg.strLimit)
    (url vpath : Bytes) :
    SameStorage s (step apply s (.submitApi block (.signed who) key url vpath)) ↔
      s.apiFeeds.lookup (.accountId who, key) = some ⟨block, some url, some vpath⟩ := by
  have hok : dispatch (.submitApi block (.signed who) key url vpath) s = .ok { s with
      apiFeeds := s.apiFeeds.insert (.accountId who, key) ⟨block, some url, some vpath⟩
      events := s.events ++
        [.newApiFeed (.accountId who) key ⟨block, some url, some vpath⟩] } := rfl
  rw [step_of_dispatch_ok hok]
  constructor
  · intro hsame
    rw [hsame.apiFeeds]
    exact AList.lookup_insert _
  · intro hstored
    refine ⟨fun k => ?_, fun _ => rfl, rfl, rfl⟩
    by_cases hk : k = (.accountId who, key)
    · -- the endpoint is stored over itself
      rw [hk, hstored]
      exact (AList.lookup_insert s.apiFeeds).symm
    · exact (AList.lookup_insert_ne hk).symm

/-- A removal leaves the storage if and only if there is nothing to remove. -/
theorem sameStorage_removeApi_iff (key : OracleKey cfg.strLimit) :
    SameStorage s (step apply s (.removeApi (.signed who) key)) ↔
      s.apiFeeds.lookup (.accountId who, key) = none := by
  cases hlookup : s.apiFeeds.lookup (.accountId who, key) with
  | none =>
    have habsent : (CreatorId.accountId who, key) ∉ s.apiFeeds := AList.lookup_eq_none.mp hlookup
    have herror : dispatch (.removeApi (.signed who) key) s = .error (.err .cannotLookup) :=
      if_neg habsent
    rw [step_of_dispatch_error herror]
    exact iff_of_true (SameStorage.refl s) rfl
  | some feed =>
    have hexists : (CreatorId.accountId who, key) ∈ s.apiFeeds := by
      rw [← AList.lookup_isSome, hlookup]
      rfl
    have hok : dispatch (.removeApi (.signed who) key) s = .ok { s with
        apiFeeds := s.apiFeeds.erase (.accountId who, key)
        events := s.events ++ [.apiFeedRemoved (.accountId who) key feed] } := by
      show (if _ then _ else _) = _
      rw [if_pos hexists, hlookup]
      rfl
    rw [step_of_dispatch_ok hok]
    -- the entry is gone, so the storage is not the same
    refine iff_of_false (fun hsame => ?_) (Option.some_ne_none feed)
    have herased := hsame.apiFeeds (.accountId who, key)
    rw [hlookup, AList.lookup_erase] at herased
    cases herased

/-- A stranger's call leaves the storage if and only if it is idle. -/
theorem sameStorage_iff_idle {le : CreatorId AccountId → CreatorId AccountId → Bool}
    {bound : Nat} (hset : cfg.orderedSetInsert = OrderedSet.insert le bound) {op : Op cfg}
    (h : op.byStranger = true) : SameStorage s (step apply s op) ↔ op.Idle bound s := by
  unfold Op.byStranger Op.caller? at h
  -- one lemma for each of the three calls that an account may sign
  split at h
  · exact sameStorage_feedData_iff hset ..
  · exact sameStorage_submitApi_iff ..
  · exact sameStorage_removeApi_iff ..
  · cases h

end Calls

/-! ## Runs without strangers -/

/-- Strangers leave the storage alone exactly in their idle calls. In a run in which they
    make no other, the final storage and the outcomes of everyone else's calls are those of
    the run without them. -/
theorem strangers_without_influence {le : CreatorId AccountId → CreatorId AccountId → Bool}
    {bound : Nat} (hset : cfg.orderedSetInsert = OrderedSet.insert le bound) :
    (∀ (op : Op cfg) (s : State cfg), op.byStranger = true →
      (SameStorage s (step apply s op) ↔ op.Idle bound s)) ∧
    ∀ (s : State cfg) (ops : List (Op cfg)),
      (∀ e ∈ history apply s ops, e.op.byStranger = true → e.op.Idle bound e.pre) →
      ((history apply s ops).filter (!·.op.byStranger)).map Event.result =
          (history apply s (ops.filter (!·.byStranger))).map Event.result ∧
        SameStorage (run apply s ops) (run apply s (ops.filter (!·.byStranger))) := by
  refine ⟨fun op s h => sameStorage_iff_idle hset h, fun s ops hidle => ?_⟩
  show (seenEvents (fun op : Op cfg => !op.byStranger) _).map _ = _ ∧ _
  refine purge (fun e => e.op.Idle bound e.pre) SameStorage.refl ?_ ?_ s ops ?_
  · -- a hidden call is idle: it leaves the storage on its side
    intro s₁ s₂ op hop hidle hagree
    have hstranger : op.byStranger = true := by simpa using hop
    exact ((sameStorage_iff_idle hset hstranger).mpr hidle).symm.trans hagree
  · -- any other call does the same on both sides
    intro s₁ s₂ op _ hagree
    exact apply_related hagree op
  · intro e he hop
    exact hidle e he (by simpa using hop)

/-! ## A stranger's feed -/

/-- Only account 1 is a member, and every raw value is published. -/
def memberConfig : Config Nat :=
  { sampleConfig fun _ _ values _ => values.head? with members := [1] }

/-- Account 2 feeds after account 1. -/
def strangerOps : List (Op memberConfig) :=
  [.feedData 5 (.signed 1) [], .feedData 5 (.signed 2) [(BoundedVec.truncateFrom 32 [0x61], 7)]]

/-- The storage is not that of account 1's call alone. -/
theorem stranger_feeds :
    ¬SameStorage (run apply genesis strangerOps)
      (run apply genesis (strangerOps.filter (!·.byStranger))) := by
  intro h
  exact absurd h.hasDispatched (by decide)

/-- Account 1 submits an endpoint, and feeds a second time in the block. -/
def memberOps : List (Op memberConfig) :=
  [.submitApi 1 (.signed 1) (BoundedVec.truncateFrom 32 [0x61]) [] [], .feedData 5 (.signed 1) []]

/-- Around these, account 2 feeds a second time too, and has nothing to remove. -/
def idleStrangerOps : List (Op memberConfig) :=
  .feedData 5 (.signed 2) [] :: memberOps ++
    [.removeApi (.signed 2) (BoundedVec.truncateFrom 32 [0x61])]

/-- A stranger that has fed in the block already leaves no trace the second time: the calls of
    the member come out as without it, the one accepted and the other refused. -/
theorem strangers_without_influence_sample :
    ((history apply (run apply genesis strangerOps) idleStrangerOps).filter
        (!·.op.byStranger)).map Event.result =
      [.ok (), .error (.err (.paraOracle .alreadyFeeded))] ∧
    SameStorage (run apply (run apply genesis strangerOps) idleStrangerOps)
      (run apply (run apply genesis strangerOps) memberOps) := by
  have hfilter : idleStrangerOps.filter (!·.byStranger) = memberOps := rfl
  obtain ⟨hresults, hsame⟩ := (strangers_without_influence rfl).2 (run apply genesis strangerOps)
    idleStrangerOps fun e he hstranger => by
      rcases List.mem_cons.mp he with rfl | he
      · exact .inl (by decide)
      rcases List.mem_cons.mp he with rfl | he
      · exact absurd hstranger (by decide)
      rcases List.mem_cons.mp he with rfl | he
      · exact absurd hstranger (by decide)
      · obtain rfl := List.mem_singleton.mp he
        rfl
  rw [hfilter] at hresults hsame
  exact ⟨hresults.trans rfl, hsame⟩

end Paraxiom.ParaOracle
