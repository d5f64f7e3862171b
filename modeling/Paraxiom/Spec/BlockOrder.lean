import Paraxiom.ForStd.Reordering
import Paraxiom.Spec.FeedsCommute

/-!
# The feeds of a block in any order

The feeds of one block are made at one moment and by different creators, each of whom has not
fed in the block yet. As long as the set has room for all of them, all are accepted in every
order in which the block may be built, and the storage at the end is the same.

`FeedsCommute` swaps two feeds. Here it is checked that what a swap needs, and in particular
that no unexpired value is overwritten by an expired one, survives the feeds in between.
-/

namespace Paraxiom.ParaOracle

open Scale OrderStatistic QuorumLog Transactional

variable {AccountId : Type} [DecidableEq AccountId] {cfg : Config AccountId}

/-- Whom an operation feeds for. -/
def Op.feeder? (op : Op cfg) : Option (CreatorId AccountId) := op.feed?.map (·.creator)

/-- Feeds that may still be made in the block, in any order. -/
structure Pending (expiresIn now : U128) (bound : Nat) (s : State cfg) (ops : List (Op cfg)) :
    Prop where
  feeds : ∀ op ∈ ops, ∃ f, op.feed? = some f ∧ f.moment = now ∧ f.creator ∉ s.hasDispatched
  distinct : (ops.map Op.feeder?).Nodup
  room : s.hasDispatched.length + ops.length ≤ bound
  count : ∀ k, (readRawValues k s).length + ops.length < 2 ^ 32
  /-- What is fed now has not expired now, or nothing unexpired is there to be replaced. -/
  fresh : now < now + expiresIn ∨
    ∀ k c x, s.rawValues.lookup (c, k) = some x → ¬now < x.timestamp + expiresIn

section Pending

variable {expiresIn now : U128} {bound : Nat} {s : State cfg} {op : Op cfg} {ops : List (Op cfg)}
  {le : CreatorId AccountId → CreatorId AccountId → Bool}

theorem Pending.perm {ops' : List (Op cfg)} (hperm : ops.Perm ops')
    (h : Pending expiresIn now bound s ops) : Pending expiresIn now bound s ops' where
  feeds op hop := h.feeds op (hperm.mem_iff.mpr hop)
  distinct := (hperm.map _).nodup_iff.mp h.distinct
  room := hperm.length_eq ▸ h.room
  count := hperm.length_eq ▸ h.count
  fresh := h.fresh

/-- The set takes the creator of a pending feed. -/
theorem Pending.taken (hset : cfg.orderedSetInsert = OrderedSet.insert le bound)
    (h : Pending expiresIn now bound s (op :: ops)) {f : OracleFeed cfg} (hf : op.feed? = some f) :
    cfg.orderedSetInsert f.creator s.hasDispatched =
      (true, s.hasDispatched.orderedInsert (fun a b => le a b) f.creator) := by
  obtain ⟨g, hg, _, hnew⟩ := h.feeds op List.mem_cons_self
  obtain rfl := Option.some.inj (hg.symm.trans hf)
  have hroom := h.room
  rw [List.length_cons] at hroom
  exact taken_of_room hset hnew (by omega)

/-- After one pending feed the others are pending. -/
theorem Pending.step (hset : cfg.orderedSetInsert = OrderedSet.insert le bound)
    (h : Pending expiresIn now bound s (op :: ops)) :
    Pending expiresIn now bound (Transactional.step apply s op) ops := by
  obtain ⟨f, hf, hmoment, _⟩ := h.feeds op List.mem_cons_self
  have htaken := h.taken hset hf
  have hpost := hasDispatched_step_of_feed hf (by rw [htaken])
  rw [htaken] at hpost
  obtain ⟨values, _, _, hkey⟩ := sameKey_step_of_feed hf (by rw [htaken])
  obtain ⟨hnotin, hdistinct⟩ := List.nodup_cons.mp h.distinct
  refine ⟨fun op' hop' => ?_, hdistinct, ?_, fun k => ?_, ?_⟩
  · -- the feeder that has fed is none of the others
    obtain ⟨g, hg, hmomentg, hnewg⟩ := h.feeds op' (List.mem_cons_of_mem _ hop')
    refine ⟨g, hg, hmomentg, ?_⟩
    rw [hpost, List.mem_orderedInsert]
    refine not_or.mpr ⟨fun heq => hnotin (List.mem_map.mpr ⟨op', hop', ?_⟩), hnewg⟩
    unfold Op.feeder?
    rw [hf, hg, Option.map_some, Option.map_some, heq]
  · have hroom := h.room
    rw [List.length_cons] at hroom
    rw [hpost, List.orderedInsert_length]
    omega
  · -- a feed adds at most one raw value of a key
    have hcount := h.count k
    rw [List.length_cons] at hcount
    obtain ⟨cs, hcs, _⟩ := exists_feeders k f.creator f.creator s
    have hle := hcs.length_le f.moment values
    rw [readRawValues_congr (hkey k).rawValues]
    omega
  · by_cases hnow : now < now + expiresIn
    · exact .inl hnow
    · -- a value there now was fed now, or was there before
      refine .inr fun k c x hx => ?_
      rw [(hkey k).rawValues, lookup_feedEntries] at hx
      have hstale := h.fresh.resolve_left hnow
      split_ifs at hx
      · rcases Option.or_eq_some_iff.mp hx with hx | ⟨_, hx⟩
        · rw [timestamp_of_lastEntry hx, hmoment]
          exact hnow
        · exact hstale k c x hx
      · exact hstale k c x hx

/-- All pending feeds are accepted. -/
theorem Pending.accepted (hset : cfg.orderedSetInsert = OrderedSet.insert le bound)
    (h : Pending expiresIn now bound s ops) : ∀ e ∈ history apply s ops, e.result = .ok () := by
  induction ops generalizing s with
  | nil => exact fun e he => absurd he List.not_mem_nil
  | cons op ops ih =>
    obtain ⟨f, hf, _⟩ := h.feeds op List.mem_cons_self
    rw [history_cons, List.forall_mem_cons]
    exact ⟨by rw [feed_result hf, if_pos (by rw [h.taken hset hf])], ih (h.step hset)⟩

end Pending

end Paraxiom.ParaOracle
