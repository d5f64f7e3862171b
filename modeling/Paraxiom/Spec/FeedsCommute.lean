import Paraxiom.Spec.OneFeedPerBlock
import Paraxiom.Spec.ParaOracleStorage

/-!
# Feeds of two creators in one block

Two creators feed in the same block, in either order. A key that only one of them feeds
does not notice the other. Of a key that both feed, the raw values end up the same, and
the feed that comes second publishes the combination of all of them if there is a quorum.
Without one at the end there has been none in between either, so the published value is
still the one before both feeds. This last step needs that a feed never lowers the number
of unexpired values: that what is fed now has not expired now, or replaces nothing that is
alive.

## Key results

- `values_feedEntries_of_some`, `values_feedEntries_of_none_anew`: what a feed publishes
- `feedEntries_comm`: the loops of two creators commute at every key
- `feeds_commute`: the two calls commute
-/

namespace Paraxiom.ParaOracle

open Scale OrderStatistic QuorumLog Transactional

variable {AccountId : Type} [DecidableEq AccountId] {cfg : Config AccountId}

/-! ## One key of the storage -/

/-- The two states have the same raw and published values of a key. -/
structure SameKey (k : OracleKey cfg.strLimit) (s s' : State cfg) : Prop where
  rawValues : ∀ c, s.rawValues.lookup (c, k) = s'.rawValues.lookup (c, k)
  values : s.values k = s'.values k

namespace SameKey

variable {k : OracleKey cfg.strLimit} {s s' s'' : State cfg} {now : U128}
  {cid : CreatorId AccountId}

theorem symm (h : SameKey k s s') : SameKey k s' s :=
  ⟨fun c => (h.rawValues c).symm, h.values.symm⟩

theorem trans (h : SameKey k s s') (h' : SameKey k s' s'') : SameKey k s s'' :=
  ⟨fun c => (h.rawValues c).trans (h'.rawValues c), h.values.trans h'.values⟩

/-- An entry fed on both sides keeps the key the same. -/
theorem feedEntry (h : SameKey k s s') (e : OracleKey cfg.strLimit × Int) :
    SameKey k (feedEntry now cid s e) (feedEntry now cid s' e) := by
  obtain ⟨key, value⟩ := e
  have hraw : ∀ c, (s.insertRaw cid key ⟨value, now⟩).rawValues.lookup (c, k) =
      (s'.insertRaw cid key ⟨value, now⟩).rawValues.lookup (c, k) := by
    intro c
    rw [lookup_insertRaw, lookup_insertRaw, h.rawValues]
  refine ⟨fun c => by rw [feedEntry_rawValues, feedEntry_rawValues, hraw], ?_⟩
  by_cases hk : k = key
  · -- both combine the same raw values, over the same published one
    subst hk
    rw [feedEntry_values_self, feedEntry_values_self, combined, combined, readRawValues_congr hraw,
      insertRaw_values, insertRaw_values, h.values]
  · rw [feedEntry_values_of_ne _ _ _ hk, feedEntry_values_of_ne _ _ _ hk, h.values]

/-- And so does a list of entries. -/
theorem feedEntries (h : SameKey k s s') (values : List (OracleKey cfg.strLimit × Int)) :
    SameKey k (feedEntries now cid values s) (feedEntries now cid values s') := by
  induction values generalizing s s' with
  | nil => exact h
  | cons e values ih => exact ih (h.feedEntry e)

/-- A feed without entries of the key leaves it. -/
theorem feedEntries_of_none {values : List (OracleKey cfg.strLimit × Int)}
    (h : lastEntry (stamped now values) k = none) (s : State cfg) :
    SameKey k (ParaOracle.feedEntries now cid values s) s where
  rawValues c := by rw [lookup_feedEntries, h, Option.none_or, ite_self]
  values := values_feedEntries_of_none h

variable (now cid) in
/-- One more entry of another key does not matter. -/
theorem feedEntry_of_ne {key : OracleKey cfg.strLimit} (h : k ≠ key) (s : State cfg)
    (value : Int) : SameKey k (ParaOracle.feedEntry now cid s (key, value)) s where
  rawValues c := by
    rw [feedEntry_rawValues, lookup_insertRaw, if_neg (h ·.2)]
  values := feedEntry_values_of_ne _ _ _ h value

end SameKey

/-- Stamping leaves the keys. -/
theorem keys_stamped {K : Type} (now : U128) (values : List (K × Int)) :
    (stamped now values).map Prod.fst = values.map Prod.fst := by
  rw [stamped, List.map_map]
  rfl

/-- The values can be read off the stamped entries. -/
theorem stamped_injective {K : Type} {now : U128} :
    Function.Injective (stamped (K := K) now) := by
  refine List.map_injective_iff.mpr fun a b h => ?_
  rw [Prod.mk.injEq, TimestampedValue.mk.injEq] at h
  exact Prod.ext h.1 h.2.1

/-- A key with a last entry is among the keys of the list. -/
theorem mem_keys_of_lastEntry {K : Type} [DecidableEq K] {now : U128} {values : List (K × Int)}
    {k : K} {x : TimestampedValue} (h : lastEntry (stamped now values) k = some x) :
    k ∈ values.map Prod.fst := by
  rw [← keys_stamped now, ← lastEntry_isSome, h]
  rfl

/-! ## Counting raw values -/

omit [DecidableEq AccountId] in
/-- A key has no more raw values than there are altogether. -/
theorem length_readRawValues_le (k : OracleKey cfg.strLimit) (s : State cfg) :
    (readRawValues k s).length ≤ s.rawValues.entries.length := by
  refine (List.length_filterMap_le ..).trans (Nat.le_of_eq ?_)
  rw [StorageMap.iter, List.length_insertionSort, List.length_map]

/-- Creators among whom are all that have a raw value of the key, and the feeder. -/
structure Feeders (cs : List (CreatorId AccountId)) (k : OracleKey cfg.strLimit)
    (cid : CreatorId AccountId) (s : State cfg) : Prop where
  nodup : cs.Nodup
  mem : ∀ c x, s.rawValues.lookup (c, k) = some x → c ∈ cs
  feeder : cid ∈ cs

section Counting

variable {cs : List (CreatorId AccountId)} {k : OracleKey cfg.strLimit}
  {cid : CreatorId AccountId} {s : State cfg} {now : U128}

/-- There are such creators, and another feeder is among them too. -/
theorem exists_feeders (k : OracleKey cfg.strLimit) (a b : CreatorId AccountId) (s : State cfg) :
    ∃ cs, Feeders cs k a s ∧ b ∈ cs := by
  -- the two feeders and everyone with a raw value of some key
  refine ⟨(a :: b :: s.rawValues.keys.map Prod.fst).dedup, ⟨List.nodup_dedup _, ?_, ?_⟩, ?_⟩
  · intro c x hx
    have hkey : (c, k) ∈ s.rawValues.keys := by
      rw [← AList.mem_keys, ← AList.lookup_isSome, hx]
      rfl
    simp only [List.mem_dedup, List.mem_cons, List.mem_map]
    exact .inr (.inr ⟨_, hkey, rfl⟩)
  · simp
  · simp

/-- A feed of one of the creators adds no other. -/
theorem Feeders.feedEntries (h : Feeders cs k cid s) (now : U128)
    (values : List (OracleKey cfg.strLimit × Int)) :
    Feeders cs k cid (feedEntries now cid values s) where
  nodup := h.nodup
  feeder := h.feeder
  mem c x hx := by
    rw [lookup_feedEntries] at hx
    split_ifs at hx with hc
    · exact hc ▸ h.feeder
    · exact h.mem c x hx

/-- Counting the raw values of a key is counting its creators. -/
theorem Feeders.countP_eq (h : Feeders cs k cid s) (p : TimestampedValue → Bool) :
    (readRawValues k s).countP p = cs.countP fun c => (s.rawValues.lookup (c, k)).any p := by
  rw [(readRawValues_perm h.nodup h.mem).countP_eq, List.countP_filterMap]
  congr 1
  funext c
  cases s.rawValues.lookup (c, k) <;> rfl

/-- A feed takes no raw value away. -/
theorem Feeders.le_length (h : Feeders cs k cid s) (now : U128)
    (values : List (OracleKey cfg.strLimit × Int)) :
    (readRawValues k s).length ≤
      (readRawValues k (ParaOracle.feedEntries now cid values s)).length := by
  have hafter := (h.feedEntries now values).countP_eq fun _ => true
  have hbefore := h.countP_eq fun _ => true
  rw [List.countP_true] at hafter hbefore
  rw [hafter, hbefore]
  refine List.countP_mono_left fun c _ hc => ?_
  rw [lookup_feedEntries]
  split
  · -- the feeder's value is the last one fed, or the old one
    cases lastEntry (stamped now values) k with
    | none => exact hc
    | some x => rfl
  · exact hc

/-- Nor does one more entry. -/
theorem Feeders.le_length_concat (h : Feeders cs k cid s) (now : U128)
    (values : List (OracleKey cfg.strLimit × Int)) (e : OracleKey cfg.strLimit × Int) :
    (readRawValues k (ParaOracle.feedEntries now cid values s)).length ≤
      (readRawValues k (ParaOracle.feedEntries now cid (values ++ [e]) s)).length := by
  rw [feedEntries_concat]
  exact (h.feedEntries now values).le_length now [e]

/-- A feed adds one raw value of a key at most. -/
theorem Feeders.length_le (h : Feeders cs k cid s) (now : U128)
    (values : List (OracleKey cfg.strLimit × Int)) :
    (readRawValues k (ParaOracle.feedEntries now cid values s)).length ≤
      (readRawValues k s).length + 1 := by
  have hafter := (h.feedEntries now values).countP_eq fun _ => true
  have hbefore := h.countP_eq fun _ => true
  rw [List.countP_true] at hafter hbefore
  rw [hafter, hbefore, (List.perm_cons_erase h.feeder).countP_eq,
    (List.perm_cons_erase h.feeder).countP_eq, List.countP_cons, List.countP_cons]
  -- everyone but the feeder has what they had
  have hothers : (cs.erase cid).countP (fun c =>
        ((ParaOracle.feedEntries now cid values s).rawValues.lookup (c, k)).any fun _ => true) =
      (cs.erase cid).countP fun c => (s.rawValues.lookup (c, k)).any fun _ => true := by
    refine List.countP_congr fun c hc => ?_
    have hne : cid ≠ c := by
      rintro rfl
      exact h.nodup.not_mem_erase hc
    rw [lookup_feedEntries, if_neg hne]
  -- and the feeder counts for one at most, before and after
  rw [hothers]
  split_ifs <;> omega

end Counting

/-! ## What a feed publishes -/

/-- The check of `combine_data`: the value has not expired, in the arithmetic of `u128`. -/
def retained (expiresIn now : U128) (x : TimestampedValue) : Bool :=
  now < x.timestamp + expiresIn

/-- What the raw values of a key combine to where nothing is published. -/
def combinedAnew (now : U128) (k : OracleKey cfg.strLimit) (s : State cfg) :
    Option TimestampedValue :=
  cfg.combineData now k (readRawValues k s) none

/-- The previous value only steps in for a combination that yields nothing. -/
theorem defaultCombineData_or {K : Type} (selectNth : Selection TimestampedValue.value)
    (minimumCount : UInt32) (expiresIn now : U128) (key : K) (values : List TimestampedValue)
    (prevValue : Option TimestampedValue) :
    defaultCombineData selectNth minimumCount expiresIn now key values prevValue =
      (defaultCombineData selectNth minimumCount expiresIn now key values none).or prevValue := by
  unfold defaultCombineData
  dsimp only
  split <;> rfl

/-- With fewer than 2^32 entries, it yields nothing exactly below the quorum. -/
theorem defaultCombineData_eq_none {K : Type} {selectNth : Selection TimestampedValue.value}
    {minimumCount : UInt32} {expiresIn now : U128} {key : K} {values : List TimestampedValue}
    (hlen : values.length < 2 ^ 32) :
    defaultCombineData selectNth minimumCount expiresIn now key values none = none ↔
      ¬quorum minimumCount ≤ values.countP (retained expiresIn now) := by
  have hle := Nat.lt_of_le_of_lt (List.length_filter_le (retained expiresIn now) values) hlen
  rw [List.countP_eq_length_filter, ← count_guard hle]
  unfold defaultCombineData
  dsimp only
  split
  · rename_i hfew
    exact iff_of_true rfl hfew
  · rename_i hmany
    exact iff_of_false (Option.some_ne_none _) hmany

section Publish

variable {selectNth : Selection TimestampedValue.value} {minimumCount : UInt32}
  {expiresIn now : U128} {cid : CreatorId AccountId} {k : OracleKey cfg.strLimit} {s : State cfg}

theorem SameKey.combinedAnew {s' : State cfg} (h : SameKey k s s') :
    combinedAnew now k s = ParaOracle.combinedAnew now k s' := by
  rw [ParaOracle.combinedAnew, ParaOracle.combinedAnew, readRawValues_congr h.rawValues]

variable (hcombine : cfg.combineData = defaultCombineData selectNth minimumCount expiresIn)
include hcombine

/-- An entry publishes what the raw values combine to after it, or leaves the published
    value. -/
theorem feedEntry_values_anew (value : Int) :
    (feedEntry now cid s (k, value)).values k =
      (combinedAnew now k (feedEntry now cid s (k, value))).or (s.values k) := by
  have hread : readRawValues k (feedEntry now cid s (k, value)) =
      readRawValues k (s.insertRaw cid k ⟨value, now⟩) :=
    readRawValues_congr fun c => by rw [feedEntry_rawValues]
  rw [feedEntry_values_self, combined, combinedAnew, hread, hcombine, defaultCombineData_or,
    insertRaw_values, Option.or_assoc, Option.or_self]

/-- If what a feed leaves combines to a value, a feed with the key publishes this value. -/
theorem values_feedEntries_of_some {values : List (OracleKey cfg.strLimit × Int)}
    {x : TimestampedValue} (hk : (lastEntry (stamped now values) k).isSome)
    (hx : combinedAnew now k (feedEntries now cid values s) = some x) :
    (feedEntries now cid values s).values k = some x := by
  induction values using List.reverseRecOn with
  | nil => cases hk
  | append_singleton values e ih =>
    obtain ⟨key, value⟩ := e
    rw [feedEntries_concat] at hx ⊢
    by_cases hkey : k = key
    · subst hkey
      rw [feedEntry_values_anew hcombine, hx]
      rfl
    · -- the entry appended is of another key: the value was published by an earlier one
      have hsame := SameKey.feedEntry_of_ne now cid hkey (feedEntries now cid values s) value
      rw [stamped_concat, lastEntry_concat_of_ne _ hkey] at hk
      rw [hsame.combinedAnew] at hx
      rw [hsame.values]
      exact ih hk hx

variable {cs : List (CreatorId AccountId)}

/-- One more entry does not lower the number of unexpired values, if what is fed now has not
    expired now or the feeder had no unexpired value of the key. -/
theorem combinedAnew_eq_none_of_feedEntry {values : List (OracleKey cfg.strLimit × Int)}
    (hcs : Feeders cs k cid s) (value : Int)
    (hlen : (readRawValues k (feedEntries now cid (values ++ [(k, value)]) s)).length < 2 ^ 32)
    (hfresh : now < now + expiresIn ∨
      ∀ x, s.rawValues.lookup (cid, k) = some x → ¬now < x.timestamp + expiresIn)
    (h : combinedAnew now k (feedEntries now cid (values ++ [(k, value)]) s) = none) :
    combinedAnew now k (feedEntries now cid values s) = none := by
  have hafter := hcs.feedEntries now (values ++ [(k, value)])
  have hbefore := hcs.feedEntries now values
  have hgrown := hcs.le_length_concat now values (k, value)
  rw [combinedAnew, hcombine, defaultCombineData_eq_none (by omega)] at h ⊢
  rw [hafter.countP_eq] at h
  rw [hbefore.countP_eq]
  refine fun hquorum => h (hquorum.trans (List.countP_mono_left fun c _ hc => ?_))
  rw [lookup_feedEntries] at hc ⊢
  by_cases hcid : cid = c
  · -- the feeder's new value was fed now, and so was its old one unless it is older than the feed
    subst hcid
    rw [if_pos rfl] at hc
    rw [if_pos rfl, stamped_concat, lastEntry_concat_self, Option.some_or, Option.any_some]
    cases hlast : lastEntry (stamped now values) k with
    | some x =>
      rw [hlast, Option.some_or, Option.any_some, retained, timestamp_of_lastEntry hlast] at hc
      exact hc
    | none =>
      rw [hlast, Option.none_or, Option.any_eq_true] at hc
      obtain ⟨x, hx, hlive⟩ := hc
      rcases hfresh with hfresh | hstale
      · exact decide_eq_true hfresh
      · -- the old value had expired and did not count
        exact absurd (of_decide_eq_true hlive) (hstale x hx)
  · -- the values of other creators stay
    rw [if_neg hcid] at hc ⊢
    exact hc

/-- If what a feed leaves combines to nothing, it did so before, and the feed leaves the
    published value. -/
theorem values_feedEntries_of_none_anew {values : List (OracleKey cfg.strLimit × Int)}
    (hcs : Feeders cs k cid s)
    (hlen : (readRawValues k (feedEntries now cid values s)).length < 2 ^ 32)
    (hfresh : now < now + expiresIn ∨
      ∀ x, s.rawValues.lookup (cid, k) = some x → ¬now < x.timestamp + expiresIn)
    (h : combinedAnew now k (feedEntries now cid values s) = none) :
    (feedEntries now cid values s).values k = s.values k ∧ combinedAnew now k s = none := by
  induction values using List.reverseRecOn with
  | nil => exact ⟨rfl, h⟩
  | append_singleton values e ih =>
    obtain ⟨key, value⟩ := e
    have ih := ih (Nat.lt_of_le_of_lt (hcs.le_length_concat now values (key, value)) hlen)
    by_cases hkey : k = key
    · subst hkey
      obtain ⟨hvalues, hnone⟩ :=
        ih (combinedAnew_eq_none_of_feedEntry hcombine hcs value hlen hfresh h)
      rw [feedEntries_concat] at h ⊢
      rw [feedEntry_values_anew hcombine, h, Option.none_or]
      exact ⟨hvalues, hnone⟩
    · have hsame := SameKey.feedEntry_of_ne now cid hkey (feedEntries now cid values s) value
      rw [feedEntries_concat] at h ⊢
      rw [hsame.combinedAnew] at h
      rw [hsame.values]
      exact ih h

end Publish

/-! ## Two feeds of one key -/

section TwoFeeds

variable {selectNth : Selection TimestampedValue.value} {minimumCount : UInt32}
  {expiresIn now : U128} {a b : CreatorId AccountId} {k : OracleKey cfg.strLimit} {s : State cfg}
  {valuesA valuesB : List (OracleKey cfg.strLimit × Int)}

/-- Feeds of different creators write different raw values. -/
theorem lookup_feedEntries_comm (hne : a ≠ b) (c : CreatorId AccountId) :
    (feedEntries now b valuesB (feedEntries now a valuesA s)).rawValues.lookup (c, k) =
      (feedEntries now a valuesA (feedEntries now b valuesB s)).rawValues.lookup (c, k) := by
  simp only [lookup_feedEntries]
  by_cases hb : b = c
  · -- the value is that of `b`, and not of `a`
    rw [if_pos hb, if_neg fun ha => hne (ha.trans hb.symm), if_neg fun ha => hne (ha.trans hb.symm),
      if_pos hb]
  · simp only [if_neg hb]

/-- A key that the second feed does not have: the second feed does not see the first. -/
theorem feedEntries_comm_of_none (h : lastEntry (stamped now valuesB) k = none) :
    SameKey k (feedEntries now b valuesB (feedEntries now a valuesA s))
      (feedEntries now a valuesA (feedEntries now b valuesB s)) :=
  (SameKey.feedEntries_of_none h _).trans
    ((SameKey.feedEntries_of_none h s).symm.feedEntries valuesA)

/-- What the second feed publishes if both combine to nothing in the end. -/
theorem values_feedEntries_twice
    (hcombine : cfg.combineData = defaultCombineData selectNth minimumCount expiresIn)
    (hne : a ≠ b)
    (hlen : (readRawValues k (feedEntries now b valuesB (feedEntries now a valuesA s))).length <
      2 ^ 32)
    (hfresh : now < now + expiresIn ∨ ∀ c, c = a ∨ c = b → ∀ x,
      s.rawValues.lookup (c, k) = some x → ¬now < x.timestamp + expiresIn)
    (h : combinedAnew now k (feedEntries now b valuesB (feedEntries now a valuesA s)) = none) :
    (feedEntries now b valuesB (feedEntries now a valuesA s)).values k = s.values k := by
  obtain ⟨cs, ha, hb⟩ := exists_feeders k a b s
  have hbfeeds : Feeders cs k b (feedEntries now a valuesA s) :=
    ⟨ha.nodup, (ha.feedEntries now valuesA).mem, hb⟩
  have hgrown := hbfeeds.le_length now valuesB
  -- the second feed, which finds its creator's raw value untouched
  obtain ⟨hsecond, hnone⟩ := values_feedEntries_of_none_anew hcombine hbfeeds hlen (by
    refine hfresh.imp_right fun hstale x hx => hstale b (.inr rfl) x ?_
    rwa [lookup_feedEntries, if_neg hne] at hx) h
  -- and the first
  obtain ⟨hfirst, _⟩ := values_feedEntries_of_none_anew hcombine ha
    (Nat.lt_of_le_of_lt hgrown hlen) (hfresh.imp_right fun hstale => hstale a (.inl rfl)) hnone
  rw [hsecond, hfirst]

variable (valuesA valuesB) in
/-- The loops of two creators commute at every key. -/
theorem feedEntries_comm
    (hcombine : cfg.combineData = defaultCombineData selectNth minimumCount expiresIn)
    (hne : a ≠ b)
    (hlen : (readRawValues k (feedEntries now b valuesB (feedEntries now a valuesA s))).length <
      2 ^ 32)
    (hfresh : now < now + expiresIn ∨
      (k ∈ valuesA.map Prod.fst → k ∈ valuesB.map Prod.fst → ∀ c, c = a ∨ c = b → ∀ x,
        s.rawValues.lookup (c, k) = some x → ¬now < x.timestamp + expiresIn)) :
    SameKey k (feedEntries now b valuesB (feedEntries now a valuesA s))
      (feedEntries now a valuesA (feedEntries now b valuesB s)) := by
  cases hlastA : lastEntry (stamped now valuesA) k with
  | none => exact (feedEntries_comm_of_none hlastA).symm
  | some xA =>
    cases hlastB : lastEntry (stamped now valuesB) k with
    | none => exact feedEntries_comm_of_none hlastB
    | some xB =>
      have hfresh : now < now + expiresIn ∨ ∀ c, c = a ∨ c = b → ∀ x,
          s.rawValues.lookup (c, k) = some x → ¬now < x.timestamp + expiresIn := by
        refine hfresh.imp_right fun hstale => hstale ?_ ?_
        · exact mem_keys_of_lastEntry hlastA
        · exact mem_keys_of_lastEntry hlastB
      have hraw : ∀ c, (feedEntries now b valuesB (feedEntries now a valuesA s)).rawValues.lookup
          (c, k) =
            (feedEntries now a valuesA (feedEntries now b valuesB s)).rawValues.lookup (c, k) :=
        lookup_feedEntries_comm hne
      refine ⟨hraw, ?_⟩
      have hanew : combinedAnew now k (feedEntries now b valuesB (feedEntries now a valuesA s)) =
          combinedAnew now k (feedEntries now a valuesA (feedEntries now b valuesB s)) := by
        rw [combinedAnew, combinedAnew, readRawValues_congr hraw]
      cases hx : combinedAnew now k (feedEntries now b valuesB (feedEntries now a valuesA s)) with
      | some x =>
        -- a quorum at the end: both orders publish what everything combines to
        rw [values_feedEntries_of_some hcombine (by rw [hlastB]; rfl) hx,
          values_feedEntries_of_some hcombine (by rw [hlastA]; rfl) (hanew ▸ hx)]
      | none =>
        -- none at the end, and so none before: both orders keep what was published
        rw [values_feedEntries_twice hcombine hne hlen hfresh hx,
          values_feedEntries_twice hcombine hne.symm (readRawValues_congr hraw ▸ hlen)
            (hfresh.imp_right fun hstale c hc => hstale c hc.symm) (hanew ▸ hx)]

end TwoFeeds

/-! ## Two calls -/

/-- Two elements go into an ordered list in either order. -/
theorem orderedInsert_comm {α : Type} {r : α → α → Prop} [DecidableRel r]
    (htotal : ∀ a b, r a b ∨ r b a) (hantisymm : ∀ a b, r a b → r b a → a = b)
    (htrans : ∀ a b c, r a b → r b c → r a c) (a b : α) (l : List α) :
    (l.orderedInsert r a).orderedInsert r b = (l.orderedInsert r b).orderedInsert r a := by
  -- two elements side by side: either order of insertion sorts them
  have htwo : ∀ rest : List α, (if r b a then b :: a :: rest else a :: b :: rest) =
      if r a b then a :: b :: rest else b :: a :: rest := by
    intro rest
    have hcases := htotal a b
    split_ifs with hba hab
    · rw [hantisymm a b hab hba]
    · rfl
    · rfl
    · exact absurd hcases (not_or.mpr ⟨‹_›, hba⟩)
  induction l with
  | nil => simpa using htwo []
  | cons x l ih =>
    by_cases hax : r a x <;> by_cases hbx : r b x
    · -- both come first
      simpa [hax, hbx] using htwo (x :: l)
    · -- one comes first, so the other cannot come before it
      have hba : ¬r b a := fun hba => hbx (htrans b a x hba hax)
      simp [hax, hbx, hba]
    · have hab : ¬r a b := fun hab => hax (htrans a b x hab hbx)
      simp [hax, hbx, hab]
    · simp [hax, hbx, ih]

section Calls

variable {s : State cfg} {op : Op cfg} {f : OracleFeed cfg}
  {le : CreatorId AccountId → CreatorId AccountId → Bool} {bound : Nat}

/-- A feed that is accepted is its loop at every key, and leaves the endpoints. -/
theorem sameKey_step_of_feed (h : op.feed? = some f)
    (htaken : (cfg.orderedSetInsert f.creator s.hasDispatched).1 = true) :
    ∃ values, f.entries = stamped f.moment values ∧
      (step apply s op).apiFeeds = s.apiFeeds ∧
      ∀ k, SameKey k (step apply s op) (feedEntries f.moment f.creator values s) := by
  obtain ⟨values, hentries, hdispatch⟩ := dispatch_of_feed h
  have happly := hdispatch s
  rw [feed_eq, if_pos htaken] at happly
  refine ⟨values, hentries, ?_, fun k => ?_⟩
  · rw [step_of_dispatch_ok happly]
    exact feedEntries_apiFeeds values
  · -- marking the creator changes neither raw nor published values
    rw [step_of_dispatch_ok happly]
    have hmark : SameKey k (s.markDispatched f.creator) s := ⟨fun _ => rfl, rfl⟩
    have hloop : SameKey k (feedEntries f.moment f.creator values (s.markDispatched f.creator))
        (feedEntries f.moment f.creator values s) := hmark.feedEntries values
    exact ⟨hloop.rawValues, hloop.values⟩

/-- A new creator is taken as long as there is room. -/
theorem taken_of_room (hset : cfg.orderedSetInsert = OrderedSet.insert le bound)
    {set : List (CreatorId AccountId)} {c : CreatorId AccountId} (hnew : c ∉ set)
    (hroom : set.length < bound) :
    cfg.orderedSetInsert c set = (true, set.orderedInsert (fun a b => le a b) c) := by
  rw [hset, OrderedSet.insert, if_neg hnew, if_pos hroom]

/-- Two feeds of new creators in a row are accepted and run their loops one after the
    other. -/
theorem run_two_feeds (hset : cfg.orderedSetInsert = OrderedSet.insert le bound)
    {opA opB : Op cfg} {f g : OracleFeed cfg} (hA : opA.feed? = some f) (hB : opB.feed? = some g)
    (hne : f.creator ≠ g.creator) (hnewA : f.creator ∉ s.hasDispatched)
    (hnewB : g.creator ∉ s.hasDispatched) (hroom : s.hasDispatched.length + 2 ≤ bound) :
    (∀ e ∈ history apply s [opA, opB], e.result = .ok ()) ∧
      (run apply s [opA, opB]).apiFeeds = s.apiFeeds ∧
      (run apply s [opA, opB]).hasDispatched =
        (s.hasDispatched.orderedInsert (fun a b => le a b) f.creator).orderedInsert
          (fun a b => le a b) g.creator ∧
      ∃ valuesA valuesB, f.entries = stamped f.moment valuesA ∧
        g.entries = stamped g.moment valuesB ∧
        ∀ k, SameKey k (run apply s [opA, opB])
          (feedEntries g.moment g.creator valuesB (feedEntries f.moment f.creator valuesA s)) := by
  have hinsA := taken_of_room hset hnewA (by omega)
  have hpostA := hasDispatched_step_of_feed hA (by rw [hinsA])
  rw [hinsA] at hpostA
  -- the second creator finds the first in the set, and room
  have hnewB' : g.creator ∉ (step apply s opA).hasDispatched := by
    rw [hpostA, List.mem_orderedInsert]
    exact not_or.mpr ⟨hne.symm, hnewB⟩
  have hroomB : (step apply s opA).hasDispatched.length < bound := by
    rw [hpostA, List.orderedInsert_length]
    omega
  have hinsB := taken_of_room hset hnewB' hroomB
  have hpostB := hasDispatched_step_of_feed hB (by rw [hinsB])
  rw [hinsB] at hpostB
  obtain ⟨valuesA, hentriesA, hapiA, hkeyA⟩ := sameKey_step_of_feed hA (by rw [hinsA])
  obtain ⟨valuesB, hentriesB, hapiB, hkeyB⟩ := sameKey_step_of_feed hB (by rw [hinsB])
  refine ⟨?_, hapiB.trans hapiA, hpostB.trans (by rw [hpostA]), valuesA, valuesB, hentriesA,
    hentriesB, fun k => (hkeyB k).trans ((hkeyA k).feedEntries valuesB)⟩
  intro e he
  rcases List.mem_pair.mp he with rfl | rfl
  · rw [feed_result hA, if_pos (by rw [hinsA])]
  · rw [feed_result hB, if_pos (by rw [hinsB])]

/-- Two creators that have not fed in the block, with room for both, feed in either order:
    both feeds are accepted, neither changes the endpoints, and the storage ends up the same.
    No key may have 2^32 raw values when both have fed. -/
theorem feeds_commute {selectNth : Selection TimestampedValue.value} {minimumCount : UInt32}
    {expiresIn : U128}
    (hcombine : cfg.combineData = defaultCombineData selectNth minimumCount expiresIn)
    (hset : cfg.orderedSetInsert = OrderedSet.insert le bound)
    (htotal : ∀ a b, le a b ∨ le b a) (hantisymm : ∀ a b, le a b → le b a → a = b)
    (htrans : ∀ a b c, le a b → le b c → le a c) {opA opB : Op cfg} {f g : OracleFeed cfg}
    (hA : opA.feed? = some f) (hB : opB.feed? = some g) (hne : f.creator ≠ g.creator)
    (hnow : f.moment = g.moment) (hnewA : f.creator ∉ s.hasDispatched)
    (hnewB : g.creator ∉ s.hasDispatched) (hroom : s.hasDispatched.length + 2 ≤ bound)
    (hcount : ∀ k, (readRawValues k (run apply s [opA, opB])).length < 2 ^ 32)
    (hfresh : f.moment < f.moment + expiresIn ∨
      ∀ k, k ∈ f.keys → k ∈ g.keys → ∀ c, c = f.creator ∨ c = g.creator → ∀ x,
        s.rawValues.lookup (c, k) = some x → ¬f.moment < x.timestamp + expiresIn) :
    (∀ e ∈ history apply s [opA, opB], e.result = .ok ()) ∧
      (∀ e ∈ history apply s [opB, opA], e.result = .ok ()) ∧
      (run apply s [opA, opB]).apiFeeds = s.apiFeeds ∧
      SameStorage (run apply s [opA, opB]) (run apply s [opB, opA]) := by
  obtain ⟨hokA, hapiA, hpostA, valuesA, valuesB, hentriesA, hentriesB, hkeyA⟩ :=
    run_two_feeds hset hA hB hne hnewA hnewB hroom
  obtain ⟨hokB, hapiB, hpostB, valuesB', valuesA', hentriesB', hentriesA', hkeyB⟩ :=
    run_two_feeds hset hB hA hne.symm hnewB hnewA hroom
  obtain rfl := stamped_injective (hentriesA.symm.trans hentriesA')
  obtain rfl := stamped_injective (hentriesB.symm.trans hentriesB')
  have hkey : ∀ k, SameKey k (run apply s [opA, opB]) (run apply s [opB, opA]) := by
    -- each run is its two loops, and the loops commute
    intro k
    rw [← hnow] at hkeyA hkeyB
    have hcomm := feedEntries_comm valuesA valuesB hcombine hne
      (readRawValues_congr (hkeyA k).rawValues ▸ hcount k)
      (hfresh.imp_right fun hstale hkA hkB => hstale k (by
        rwa [QuorumLog.Feed.keys, hentriesA, keys_stamped]) (by
        rwa [QuorumLog.Feed.keys, hentriesB, keys_stamped]))
    exact (hkeyA k).trans (hcomm.trans (hkeyB k).symm)
  refine ⟨hokA, hokB, hapiA, ?_, fun (c, k) => (hkey k).rawValues c,
    funext fun k => (hkey k).values, ?_⟩
  · intro k
    rw [hapiA, hapiB]
  · rw [hpostA, hpostB]
    exact orderedInsert_comm htotal hantisymm htrans _ _ _

end Calls

/-! ## When a feed lowers the number of unexpired values -/

/-- Values expire so late that the sum wraps for those fed from 1000 on. -/
def wrappedConfig : Config Nat :=
  sampleConfig (defaultCombineData (Selection.ofSort _) 1 (BitVec.ofNat 128 (2 ^ 128 - 1000)))

def wrappedKey : OracleKey 32 := BoundedVec.truncateFrom 32 [0x61]

/-- Accounts 1 and 2 feed the key before that, and the block ends. -/
def wrappedOps : List (Op wrappedConfig) :=
  [.feedData 500 (.signed 1) [(wrappedKey, 10)], .feedData 500 (.signed 2) [(wrappedKey, 20)],
   .onFinalize]

/-- Each of them is then published with the other's old value, whoever feeds first. -/
theorem feeds_of_wrapped_expiry :
    ¬∀ (s : State wrappedConfig) (opA opB : Op wrappedConfig) (f g : OracleFeed wrappedConfig),
      opA.feed? = some f → opB.feed? = some g → f.creator ≠ g.creator → f.moment = g.moment →
      f.creator ∉ s.hasDispatched → g.creator ∉ s.hasDispatched →
      s.hasDispatched.length + 2 ≤ 3 →
      (∀ e ∈ history apply s [opA, opB], e.result = .ok ()) ∧
        (∀ e ∈ history apply s [opB, opA], e.result = .ok ()) ∧
        SameStorage (run apply s [opA, opB]) (run apply s [opB, opA]) := by
  intro h
  obtain ⟨_, _, hsame⟩ := h (run apply genesis wrappedOps)
    (.feedData 2000 (.signed 1) [(wrappedKey, 11)]) (.feedData 2000 (.signed 2) [(wrappedKey, 21)])
    _ _ rfl rfl (by decide) rfl (by decide) (by decide) (by decide)
  exact absurd (congrFun hsame.values wrappedKey) (by decide)

/-- An account feeds a key twice. -/
def accountFeed : Op sampleMedianConfig :=
  .feedData 5 (.signed 1) [(wrappedKey, 10), (wrappedKey, 30)]

/-- A parachain feeds it once. -/
def parachainFeed : Op sampleMedianConfig :=
  .xcmFeedData 5 (.siblingParachain 2000) [(wrappedKey, 20)]

/-- Where the expiry does not wrap, an account and a parachain feed a key in either order. -/
theorem feeds_commute_sample :
    SameStorage (run apply genesis [accountFeed, parachainFeed])
      (run apply genesis [parachainFeed, accountFeed]) := by
  have hset : sampleMedianConfig.orderedSetInsert =
      OrderedSet.insert (fun a b => toLex a.code ≤ toLex b.code) 3 := rfl
  have hA : accountFeed.feed? =
      some ⟨.accountId 1, 5, stamped 5 [(wrappedKey, 10), (wrappedKey, 30)]⟩ := rfl
  have hB : parachainFeed.feed? = some ⟨.paraId 2000, 5, stamped 5 [(wrappedKey, 20)]⟩ := rfl
  have hcount : (run apply genesis [accountFeed, parachainFeed]).rawValues.entries.length = 2 := by
    decide +kernel
  obtain ⟨_, _, _, hsame⟩ := feeds_commute (s := genesis) rfl hset
    (fun a b => by simpa using le_total (toLex a.code) (toLex b.code))
    (fun a b hab hba => CreatorId.code_injective (toLex.injective
      (le_antisymm (of_decide_eq_true hab) (of_decide_eq_true hba))))
    (fun a b c hab hbc => decide_eq_true
      (le_trans (of_decide_eq_true hab) (of_decide_eq_true hbc)))
    hA hB (by decide) rfl (by decide) (by decide) (by decide)
    (fun k => Nat.lt_of_le_of_lt (hcount ▸ length_readRawValues_le k _) (by decide))
    (.inl (by decide))
  exact hsame

end Paraxiom.ParaOracle
