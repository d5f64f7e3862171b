import Paraxiom.Spec.QuorumMedian

/-!
# Feeding once in a block

The pallet keeps the creators that have fed in a set of a bounded size, which the end of a
block empties. The set holds exactly the creators whose feeds the block has accepted, so
whoever is in it is rejected with reason. A full set takes nobody, and then a creator that
has not fed is told `AlreadyFeeded` as well: rejections are right as long as no block has
more callers than the set has room for.

## Key results

- `Dispatched.step`: the set keeps up with the accepted feeds of the block
- `rejections_right_iff`: when every rejection is right
-/

namespace Paraxiom.ParaOracle

open Scale Transactional

variable {AccountId : Type} {cfg : Config AccountId}

/-! ## Blocks -/

/-- An executed operation of this pallet. -/
abbrev OpEvent (cfg : Config AccountId) :=
  Transactional.Event (State cfg) (Op cfg) (Failure DispatchError) Unit

/-- Whether an operation is the end of a block. -/
def Op.endsBlock : Op cfg → Bool
  | .onFinalize => true
  | _ => false

/-- The creators of the feeds that the current block has accepted. -/
def blockFeeders (past : List (OpEvent cfg)) : List (CreatorId AccountId) :=
  ((past.reverse.takeWhile fun e => !e.op.endsBlock).filterMap acceptedFeed).map (·.creator)

theorem Op.endsBlock_eq_true {op : Op cfg} : op.endsBlock = true ↔ op = .onFinalize := by
  cases op <;> simp [Op.endsBlock]

/-- A feed does not end the block. -/
theorem Op.endsBlock_of_feed {op : Op cfg} {f : OracleFeed cfg} (h : op.feed? = some f) :
    op.endsBlock = false := by
  cases op with
  | onFinalize => cases h
  | _ => rfl

section Feeders

variable {past : List (OpEvent cfg)} {e : OpEvent cfg}

/-- Nobody has fed yet in a new block. -/
theorem blockFeeders_concat_of_ends (h : e.op.endsBlock = true) :
    blockFeeders (past ++ [e]) = [] := by
  simp [blockFeeders, h]

/-- An accepted feed adds its creator. -/
theorem blockFeeders_concat_of_accepted {f : OracleFeed cfg} (hend : e.op.endsBlock = false)
    (h : acceptedFeed e = some f) :
    blockFeeders (past ++ [e]) = f.creator :: blockFeeders past := by
  simp [blockFeeders, hend, h]

/-- Nothing else does. -/
theorem blockFeeders_concat_of_not (hend : e.op.endsBlock = false) (h : acceptedFeed e = none) :
    blockFeeders (past ++ [e]) = blockFeeders past := by
  simp [blockFeeders, hend, h]

end Feeders

variable [DecidableEq AccountId]

/-- The distinct creators that have called with a feed since the last block ended. -/
def blockCallers (ops : List (Op cfg)) : List (CreatorId AccountId) :=
  (((ops.reverse.takeWhile (!·.endsBlock)).filterMap Op.feed?).map (·.creator)).dedup

section Callers

variable {ops : List (Op cfg)} {op : Op cfg} {c : CreatorId AccountId}

/-- Nobody has called yet in a new block. -/
theorem blockCallers_concat_of_ends (h : op.endsBlock = true) :
    blockCallers (ops ++ [op]) = [] := by
  simp [blockCallers, h]

/-- A feed adds its creator, accepted or not. -/
theorem mem_blockCallers_concat_of_feed {f : OracleFeed cfg} (h : op.feed? = some f) :
    c ∈ blockCallers (ops ++ [op]) ↔ c = f.creator ∨ c ∈ blockCallers ops := by
  simp [blockCallers, h, Op.endsBlock_of_feed h, eq_comm]

/-- Nothing else does. -/
theorem blockCallers_concat_of_not (hend : op.endsBlock = false) (h : op.feed? = none) :
    blockCallers (ops ++ [op]) = blockCallers ops := by
  simp [blockCallers, hend, h]

end Callers

/-! ## The set -/

namespace OrderedSet

variable {α : Type} [DecidableEq α] {le : α → α → Bool} {bound : Nat} {a : α} {set : List α}

/-- The set takes an element that is new if there is room. -/
theorem insert_fst : (insert le bound a set).1 = true ↔ a ∉ set ∧ set.length < bound := by
  unfold insert
  split_ifs <;> simp_all

/-- It is then one element larger. -/
theorem insert_snd_perm (h : (insert le bound a set).1 = true) :
    (insert le bound a set).2.Perm (a :: set) := by
  obtain ⟨hnew, hroom⟩ := insert_fst.mp h
  unfold insert
  rw [if_neg hnew, if_pos hroom]
  exact List.perm_orderedInsert _ a set

end OrderedSet

/-- A feed succeeds or fails with `AlreadyFeeded`, as the set takes its creator or not. -/
theorem feed_result {op : Op cfg} {f : OracleFeed cfg} (h : op.feed? = some f) (s : State cfg) :
    (event apply s op).result =
      if (cfg.orderedSetInsert f.creator s.hasDispatched).1 then .ok ()
      else .error (.err (.paraOracle .alreadyFeeded)) := by
  obtain ⟨values, _, hdispatch⟩ := dispatch_of_feed h
  unfold event apply
  rw [hdispatch, feed_eq]
  split_ifs <;> rfl

/-- A feed that is accepted leaves the set as the insertion made it. -/
theorem hasDispatched_step_of_feed {op : Op cfg} {f : OracleFeed cfg} (h : op.feed? = some f)
    {s : State cfg} (hset : (cfg.orderedSetInsert f.creator s.hasDispatched).1 = true) :
    (step apply s op).hasDispatched = (cfg.orderedSetInsert f.creator s.hasDispatched).2 := by
  obtain ⟨values, _, hdispatch⟩ := dispatch_of_feed h
  have happly := hdispatch s
  rw [feed_eq, if_pos hset] at happly
  rw [step_of_dispatch_ok happly]
  exact feedEntries_hasDispatched values

/-- A feed that the set refuses changes nothing. -/
theorem step_of_refused {op : Op cfg} {f : OracleFeed cfg} (h : op.feed? = some f)
    {s : State cfg} (hset : (cfg.orderedSetInsert f.creator s.hasDispatched).1 ≠ true) :
    step apply s op = s := by
  have hresult := feed_result h s
  rw [if_neg hset] at hresult
  exact step_of_error (event_result_eq_error.mp hresult)

/-- Between feeds the set stays, until the end of the block empties it. -/
theorem hasDispatched_step_of_not_feed {op : Op cfg} (h : op.feed? = none) (s : State cfg) :
    (step apply s op).hasDispatched = if op.endsBlock then [] else s.hasDispatched := by
  split_ifs with hend
  · rw [Op.endsBlock_eq_true.mp hend]
    rfl
  · cases hdispatch : dispatch op s with
    -- a call that fails is rolled back
    | error e => rw [step_of_dispatch_error hdispatch]
    | ok s' =>
      have hne : op ≠ .onFinalize := fun heq => hend (Op.endsBlock_eq_true.mpr heq)
      rw [step_of_dispatch_ok hdispatch]
      exact (dispatch_of_not_feed h hne hdispatch).hasDispatched

/-! ## Rejections -/

section Rejections

variable {op : Op cfg} {f : OracleFeed cfg} {s : State cfg}

/-- A feed that was not accepted was rejected with `AlreadyFeeded`. -/
theorem rejected_of_not_accepted (hfeed : op.feed? = some f)
    (h : acceptedFeed (event apply s op) = none) :
    (event apply s op).result = .error (.err (.paraOracle .alreadyFeeded)) := by
  have hresult := feed_result hfeed s
  split_ifs at hresult
  · simp [acceptedFeed, hresult, hfeed] at h
  · exact hresult

/-- In a run from genesis, `AlreadyFeeded` goes to exactly the creators that have had a feed
    accepted in the same block. -/
def RejectionsRight (ops : List (Op cfg)) : Prop :=
  ∀ past e later, history apply genesis ops = past ++ e :: later → ∀ f, e.op.feed? = some f →
    (e.result = .error (.err (.paraOracle .alreadyFeeded)) ↔ f.creator ∈ blockFeeders past)

/-- What is right of a run is right of its beginning. -/
theorem RejectionsRight.of_isPrefix {ops before : List (Op cfg)} (h : RejectionsRight ops)
    (hbefore : before <+: ops) : RejectionsRight before := by
  obtain ⟨after, rfl⟩ := hbefore
  intro past e later hsplit
  refine h past e (later ++ history apply (run apply genesis before) after) ?_
  rw [history_append, hsplit, List.append_assoc, List.cons_append]

/-- The last feed is refused exactly if its creator has fed. -/
theorem RejectionsRight.last {ops : List (Op cfg)} (h : RejectionsRight (ops ++ [op]))
    (hfeed : op.feed? = some f) :
    (event apply (run apply genesis ops) op).result =
        .error (.err (.paraOracle .alreadyFeeded)) ↔
      f.creator ∈ blockFeeders (history apply genesis ops) :=
  h _ _ [] (history_concat ..) f hfeed

/-- A creator whose feed the block accepted has called in it. -/
theorem mem_blockCallers_of_mem_blockFeeders (ops : List (Op cfg)) :
    ∀ c ∈ blockFeeders (history apply genesis ops), c ∈ blockCallers ops := by
  induction ops using List.reverseRecOn with
  | nil => simp [blockFeeders]
  | append_singleton ops op ih =>
    rw [history_concat]
    intro c hc
    cases hend : op.endsBlock with
    | true =>
      -- the new block has no feeders yet
      rw [blockFeeders_concat_of_ends hend] at hc
      cases hc
    | false =>
      cases haccepted : acceptedFeed (event apply (run apply genesis ops) op) with
      | some f =>
        rw [blockFeeders_concat_of_accepted hend haccepted] at hc
        have hfeed := feed_of_acceptedFeed haccepted
        rw [event_op] at hfeed
        rw [mem_blockCallers_concat_of_feed hfeed]
        exact (List.mem_cons.mp hc).imp_right (ih c)
      | none =>
        rw [blockFeeders_concat_of_not hend haccepted] at hc
        cases hfeed : op.feed? with
        | none => rw [blockCallers_concat_of_not hend hfeed]; exact ih c hc
        | some f => exact (mem_blockCallers_concat_of_feed hfeed).mpr (.inr (ih c hc))

/-- If every rejection is right, the block has accepted every caller: one that was not
    accepted was rejected, so it had been accepted before. -/
theorem RejectionsRight.mem_blockFeeders {ops : List (Op cfg)} (h : RejectionsRight ops) :
    ∀ c ∈ blockCallers ops, c ∈ blockFeeders (history apply genesis ops) := by
  induction ops using List.reverseRecOn with
  | nil => simp [blockCallers]
  | append_singleton ops op ih =>
    have hold := ih (h.of_isPrefix (List.prefix_append ops [op]))
    rw [history_concat]
    intro c hc
    cases hfeed : op.feed? with
    | none =>
      cases hend : op.endsBlock with
      | true =>
        -- the new block has no callers yet
        rw [blockCallers_concat_of_ends hend] at hc
        cases hc
      | false =>
        rw [blockCallers_concat_of_not hend hfeed] at hc
        have hnone := acceptedFeed_of_not_feed
          (e := event apply (run apply genesis ops) op) hfeed
        rw [blockFeeders_concat_of_not hend hnone]
        exact hold c hc
    | some f =>
      have hend := Op.endsBlock_of_feed hfeed
      rw [mem_blockCallers_concat_of_feed hfeed] at hc
      cases haccepted : acceptedFeed (event apply (run apply genesis ops) op) with
      | some g =>
        -- it was accepted, and joins the feeders of the block
        have hgf : some f = some g := hfeed.symm.trans (feed_of_acceptedFeed haccepted)
        rw [blockFeeders_concat_of_accepted hend haccepted, ← Option.some.inj hgf]
        rcases hc with rfl | hc
        · exact List.mem_cons_self
        · exact List.mem_cons_of_mem _ (hold c hc)
      | none =>
        rw [blockFeeders_concat_of_not hend haccepted]
        rcases hc with rfl | hc
        · -- it was rejected, and rightly: the block had accepted it before
          exact (h.last hfeed).mp (rejected_of_not_accepted hfeed haccepted)
        · exact hold c hc

end Rejections

/-! ## The set follows the block -/

/-- The set holds the creators whose feeds the block has accepted, each once. -/
structure Dispatched (bound : Nat) (past : List (OpEvent cfg)) (s : State cfg) : Prop where
  perm : s.hasDispatched.Perm (blockFeeders past)
  nodup : s.hasDispatched.Nodup
  length_le : s.hasDispatched.length ≤ bound

section Runs

variable {le : CreatorId AccountId → CreatorId AccountId → Bool} {bound : Nat}
  (hset : cfg.orderedSetInsert = OrderedSet.insert le bound)
include hset

/-- One operation keeps the set up with the block. -/
theorem Dispatched.step {past : List (OpEvent cfg)} {s : State cfg}
    (h : Dispatched bound past s) (op : Op cfg) :
    Dispatched bound (past ++ [event apply s op]) (Transactional.step apply s op) := by
  cases hfeed : op.feed? with
  | none =>
    have hnone := acceptedFeed_of_not_feed (e := event apply s op) hfeed
    have hstep := hasDispatched_step_of_not_feed hfeed s
    cases hend : op.endsBlock with
    | true =>
      -- the set and the block start anew
      rw [if_pos hend] at hstep
      exact ⟨by rw [hstep, blockFeeders_concat_of_ends hend], by rw [hstep]; exact List.nodup_nil,
        by rw [hstep]; exact Nat.zero_le _⟩
    | false =>
      rw [if_neg (by rw [hend]; exact Bool.false_ne_true)] at hstep
      exact ⟨by rw [hstep, blockFeeders_concat_of_not hend hnone]; exact h.perm,
        by rw [hstep]; exact h.nodup, by rw [hstep]; exact h.length_le⟩
  | some f =>
    have hend := Op.endsBlock_of_feed hfeed
    have hresult := feed_result hfeed s
    by_cases htaken : (cfg.orderedSetInsert f.creator s.hasDispatched).1 = true
    · -- the creator joins the set and the block
      rw [if_pos htaken] at hresult
      have haccepted : acceptedFeed (event apply s op) = some f := by
        simp only [acceptedFeed, hresult, event_op, hfeed]
      rw [hset] at htaken
      obtain ⟨hnew, hroom⟩ := OrderedSet.insert_fst.mp htaken
      have hperm := OrderedSet.insert_snd_perm htaken
      rw [← hset, ← hasDispatched_step_of_feed hfeed (by rw [hset]; exact htaken)] at hperm
      refine ⟨?_, hperm.nodup_iff.mpr (List.nodup_cons.mpr ⟨hnew, h.nodup⟩), ?_⟩
      · rw [blockFeeders_concat_of_accepted hend haccepted]
        exact hperm.trans (h.perm.cons _)
      · rw [hperm.length_eq, List.length_cons]
        omega
    · -- the set refuses and nothing changes
      rw [if_neg htaken] at hresult
      have hnone : acceptedFeed (event apply s op) = none := by
        simp only [acceptedFeed, hresult]
      rw [step_of_refused hfeed htaken]
      exact ⟨by rw [blockFeeders_concat_of_not hend hnone]; exact h.perm, h.nodup, h.length_le⟩

/-- The set holds who has fed, after every run. -/
theorem dispatched_run (ops : List (Op cfg)) :
    Dispatched bound (history apply genesis ops) (run apply genesis ops) := by
  refine history_induction (G := fun _ => True) ?_ ?_ ops (fun _ _ => trivial)
  · exact ⟨List.Perm.refl _, List.nodup_nil, Nat.zero_le _⟩
  · intro past s op _ h
    exact h.step hset op

/-- A feed is rejected if its creator has fed in the block or the set is full. -/
theorem rejected_iff {ops : List (Op cfg)} {op : Op cfg} {f : OracleFeed cfg}
    (h : op.feed? = some f) :
    (event apply (run apply genesis ops) op).result = .error (.err (.paraOracle .alreadyFeeded)) ↔
      f.creator ∈ blockFeeders (history apply genesis ops) ∨
        bound ≤ (run apply genesis ops).hasDispatched.length := by
  rw [feed_result h, ← (dispatched_run hset ops).perm.mem_iff, hset]
  have htaken : (OrderedSet.insert le bound f.creator (run apply genesis ops).hasDispatched).1 =
      true ↔ _ := OrderedSet.insert_fst
  split_ifs with hins
  · -- the set took the creator: it was new, and there was room
    obtain ⟨hnew, hroom⟩ := htaken.mp hins
    simp [hnew, hroom]
  · have hfull := mt htaken.mpr hins
    simp only [true_iff]
    by_contra hout
    push Not at hout
    exact hfull hout

/-- In every run, a feed is rejected with `AlreadyFeeded` exactly if its creator has had a
    feed accepted in the same block, if and only if in no block more creators call with
    feeds than the set has room for. -/
theorem rejections_right_iff (ops : List (Op cfg)) :
    RejectionsRight ops ↔ ∀ before, before <+: ops → (blockCallers before).length ≤ bound := by
  constructor
  · intro h before hbefore
    -- every caller of the block is in the set
    have hsub := (h.of_isPrefix hbefore).mem_blockFeeders
    have hset := dispatched_run hset before
    calc (blockCallers before).length
        ≤ (run apply genesis before).hasDispatched.length :=
          ((List.nodup_dedup _).subperm fun c hc => hset.perm.mem_iff.mpr (hsub c hc)).length_le
      _ ≤ bound := hset.length_le
  · intro h past e later hsplit f hfeed
    obtain ⟨before, op, after, rfl, rfl, rfl, _⟩ := history_split hsplit
    rw [event_op] at hfeed
    rw [rejected_iff hset hfeed, or_iff_left_iff_imp]
    intro hfull
    by_contra hnew
    -- the creator and the members of the full set are callers of the block
    have hdispatched := dispatched_run hset before
    have hroom := h (before ++ [op]) ⟨after, by simp⟩
    have hsub : (f.creator :: (run apply genesis before).hasDispatched).Subperm
        (blockCallers (before ++ [op])) := by
      refine List.Nodup.subperm (List.nodup_cons.mpr ⟨?_, hdispatched.nodup⟩) ?_
      · exact fun hmem => hnew (hdispatched.perm.mem_iff.mp hmem)
      · intro c hc
        rw [mem_blockCallers_concat_of_feed hfeed]
        rcases List.mem_cons.mp hc with rfl | hc
        · exact .inl rfl
        · have hfed := hdispatched.perm.mem_iff.mp hc
          exact .inr (mem_blockCallers_of_mem_blockFeeders before c hfed)
    have hlen := hsub.length_le
    rw [List.length_cons] at hlen
    omega

end Runs

/-! ## A full set -/

/-- Four creators feed in one block, and the set has room for three. -/
def crowdedOps : List (Op (sampleConfig fun _ _ _ prev => prev)) :=
  [.feedData 5 (.signed 1) [], .feedData 5 (.signed 2) [],
   .xcmFeedData 5 (.siblingParachain 2000) [], .feedData 5 (.signed 3) []]

/-- The fourth is told that it has fed. -/
theorem rejected_when_full : ¬RejectionsRight crowdedOps := by
  intro h
  have hfour := h (history apply genesis (crowdedOps.take 3))
    (event apply (run apply genesis (crowdedOps.take 3)) (.feedData 5 (.signed 3) [])) [] rfl _ rfl
  exact absurd (hfour.mp rfl) (by decide)

theorem rejections_right_iff_sample : RejectionsRight (crowdedOps.take 3) :=
  (rejections_right_iff rfl (crowdedOps.take 3)).mpr fun before h =>
    (by decide : ∀ before ∈ (crowdedOps.take 3).inits, (blockCallers before).length ≤ 3) before
      ((List.mem_inits ..).mpr h)

end Paraxiom.ParaOracle
