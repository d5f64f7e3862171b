import Paraxiom.ForStd.QuorumLog
import Paraxiom.ForStd.Transactional
import Paraxiom.Pallets.ParaOracle

/-!
# What the para-oracle's functions do

`readRawValues` enumerates the raw values of a key in storage order; `readRawValues_perm`
makes it a list of lookups, one for each creator. `combined_of_quorum` and
`combined_of_not_quorum` say what the default combination makes of them, and
`values_foldl_feedEntry` what a whole feed leaves as the published value: the loop combines
after each entry, but only the last entry of a key decides.
-/

namespace Paraxiom.ParaOracle

open Scale OrderStatistic QuorumLog

/-! ## The default combination -/

/-- `timestamp + expires_in > now`, on the numbers themselves. -/
def unexpired (expiresIn now : U128) (x : TimestampedValue) : Bool :=
  now.toNat < x.timestamp.toNat + expiresIn.toNat

/-- The entries that `combine_data` asks for before it publishes a median. -/
def quorum (minimumCount : UInt32) : Nat := max 1 minimumCount.toNat

/-- Where the sum does not wrap, `retain` keeps what has not expired. -/
theorem filter_unexpired {expiresIn : U128} {values : List TimestampedValue}
    (h : ∀ x ∈ values, x.timestamp.toNat + expiresIn.toNat < 2 ^ 128) (now : U128) :
    values.filter (fun x => now < x.timestamp + expiresIn) =
      values.filter (unexpired expiresIn now) := by
  refine List.filter_congr fun x hx => ?_
  rw [unexpired, decide_eq_decide, BitVec.lt_def, BitVec.toNat_add, Nat.mod_eq_of_lt (h x hx)]

section Combine

variable {K : Type} {selectNth : Selection TimestampedValue.value} {minimumCount : UInt32}
  {expiresIn now : U128} {key : K} {values : List TimestampedValue}

/-- With fewer than 2^32 entries, the guard compares their number with the quorum. -/
theorem count_guard {α : Type} {values : List α} (hlen : values.length < 2 ^ 32) :
    (UInt32.ofNat values.length < minimumCount ∨ UInt32.ofNat values.length = 0) ↔
      ¬quorum minimumCount ≤ values.length := by
  rw [UInt32.lt_iff_toNat_lt, ← UInt32.toNat_inj, UInt32.toNat_ofNat_of_lt' hlen,
    UInt32.toNat_zero, quorum]
  omega

variable (selectNth key) in
/-- With a quorum, the default combination publishes a median of what has not expired. -/
theorem defaultCombineData_of_quorum
    (htime : ∀ x ∈ values, x.timestamp.toNat + expiresIn.toNat < 2 ^ 128)
    (hlen : values.length < 2 ^ 32)
    (hquorum : quorum minimumCount ≤ (values.filter (unexpired expiresIn now)).length)
    (prevValue : Option TimestampedValue) :
    ∃ x, defaultCombineData selectNth minimumCount expiresIn now key values prevValue = some x ∧
      IsMedian TimestampedValue.value (values.filter (unexpired expiresIn now)) x := by
  have hle := Nat.lt_of_le_of_lt (List.length_filter_le (unexpired expiresIn now) values) hlen
  unfold defaultCombineData
  rw [← filter_unexpired htime now] at hquorum hle ⊢
  generalize values.filter (fun x => now < x.timestamp + expiresIn) = live at *
  have hguard := mt (count_guard hle).mp (not_not.mpr hquorum)
  have hmid : (UInt32.ofNat live.length / 2).toNat = live.length / 2 := by
    rw [UInt32.toNat_div, UInt32.toNat_ofNat_of_lt' hle]
    rfl
  refine ⟨_, dif_neg hguard, selectNth.select_mem _ _, ?_⟩
  rw [← hmid]
  exact selectNth.nthSmallest_select live ⟨_, midIndex_lt live hguard⟩

/-- Without a quorum, it keeps the previous value. -/
theorem defaultCombineData_of_not_quorum
    (htime : ∀ x ∈ values, x.timestamp.toNat + expiresIn.toNat < 2 ^ 128)
    (hlen : values.length < 2 ^ 32)
    (hquorum : ¬quorum minimumCount ≤ (values.filter (unexpired expiresIn now)).length)
    (prevValue : Option TimestampedValue) :
    defaultCombineData selectNth minimumCount expiresIn now key values prevValue = prevValue := by
  have hle := Nat.lt_of_le_of_lt (List.length_filter_le (unexpired expiresIn now) values) hlen
  rw [← filter_unexpired htime now] at hquorum hle
  exact dif_pos ((count_guard hle).mpr hquorum)

end Combine

variable {AccountId : Type} [DecidableEq AccountId] {cfg : Config AccountId}

/-! ## Raw values -/

/-- A raw value that is read is some creator's. -/
theorem mem_readRawValues {s : State cfg} {key : OracleKey cfg.strLimit} {x : TimestampedValue} :
    x ∈ readRawValues key s ↔ ∃ c, s.rawValues.lookup (c, key) = some x := by
  simp only [readRawValues, List.mem_filterMap, Option.ite_none_right_eq_some, Option.some.injEq]
  constructor
  · rintro ⟨⟨⟨c, k⟩, x'⟩, hmem, rfl, rfl⟩
    exact ⟨c, StorageMap.mem_iter.mp hmem⟩
  · rintro ⟨c, hx⟩
    exact ⟨((c, key), x), StorageMap.mem_iter.mpr hx, rfl, rfl⟩

/-- The raw values of a key are what its creators stored, each once. -/
theorem readRawValues_perm {s : State cfg} {key : OracleKey cfg.strLimit}
    {cs : List (CreatorId AccountId)} (hcs : cs.Nodup)
    (h : ∀ c x, s.rawValues.lookup (c, key) = some x → c ∈ cs) :
    (readRawValues key s).Perm (cs.filterMap fun c => s.rawValues.lookup (c, key)) := by
  -- both are the values of lists of distinct pairs of a creator and its value
  let stored := (s.rawValues.iter cfg.storageHash).filterMap fun e =>
    if key = e.1.2 then some (e.1.1, e.2) else none
  let found := cs.filterMap fun c => (s.rawValues.lookup (c, key)).map (c, ·)
  have hstored : stored.Nodup := by
    -- the creator of a pair that is kept gives back its key
    refine (StorageMap.nodup_iter s.rawValues).filterMap ?_
    rintro ⟨⟨c, k⟩, x⟩ ⟨⟨c', k'⟩, x'⟩ b hb hb'
    simp only [Option.mem_def, Option.ite_none_right_eq_some, Option.some.injEq] at hb hb'
    obtain ⟨rfl, rfl⟩ := hb
    obtain ⟨rfl, heq⟩ := hb'
    cases heq
    rfl
  have hfound : found.Nodup := by
    refine hcs.filterMap ?_
    intro c c' b hb hb'
    obtain ⟨x, _, rfl⟩ := Option.map_eq_some_iff.mp hb
    obtain ⟨x', _, heq⟩ := Option.map_eq_some_iff.mp hb'
    exact (congrArg Prod.fst heq).symm
  have hperm : stored.Perm found := by
    -- without duplicates, it is enough that they have the same elements
    refine (List.perm_ext_iff_of_nodup hstored hfound).mpr ?_
    rintro ⟨c, x⟩
    simp only [stored, found, List.mem_filterMap, Option.ite_none_right_eq_some,
      Option.some.injEq, Option.map_eq_some_iff]
    constructor
    · rintro ⟨⟨⟨c', k⟩, x'⟩, hmem, rfl, heq⟩
      cases heq
      have hlookup := StorageMap.mem_iter.mp hmem
      exact ⟨_, h _ _ hlookup, _, hlookup, rfl⟩
    · rintro ⟨c', _, x', hlookup, heq⟩
      cases heq
      exact ⟨((c, key), x), StorageMap.mem_iter.mpr hlookup, rfl, rfl⟩
  have hvalues : readRawValues key s = stored.map Prod.snd := by
    rw [List.map_filterMap, readRawValues]
    congr 1
    funext ⟨⟨c, k⟩, x⟩
    dsimp only
    split_ifs <;> rfl
  have hlookups : cs.filterMap (fun c => s.rawValues.lookup (c, key)) = found.map Prod.snd := by
    rw [List.map_filterMap]
    congr 1
    funext c
    rw [Option.map_map]
    exact Option.map_id'.symm
  rw [hvalues, hlookups]
  exact hperm.map Prod.snd

/-- What is read of a key depends on the raw values of the key alone. -/
theorem readRawValues_congr {s s' : State cfg} {key : OracleKey cfg.strLimit}
    (h : ∀ c, s.rawValues.lookup (c, key) = s'.rawValues.lookup (c, key)) :
    readRawValues key s = readRawValues key s' := by
  have hread : ∀ s : State cfg, readRawValues key s =
      ((s.rawValues.iter cfg.storageHash).filter fun e => key = e.1.2).filterMap
        fun e => if key = e.1.2 then some e.2 else none := by
    intro s
    rw [readRawValues, List.filterMap_filter]
    congr 1
    funext e
    obtain ⟨⟨c, k⟩, val⟩ := e
    by_cases hk : key = k <;> simp [hk]
  have hfilter : ∀ k : CreatorId AccountId × OracleKey cfg.strLimit,
      decide (key = k.2) = true → s.rawValues.lookup k = s'.rawValues.lookup k := by
    intro k hk
    have hk : k = (k.1, key) := Prod.ext rfl (of_decide_eq_true hk).symm
    rw [hk, h]
  rw [hread, hread, StorageMap.filter_iter_congr cfg.storageHash_injective hfilter]

/-- The unexpired raw values of a key, one for each creator that has one. -/
def liveValues (expiresIn now : U128) (cs : List (CreatorId AccountId))
    (key : OracleKey cfg.strLimit)
    (raw : StorageMap (CreatorId AccountId × OracleKey cfg.strLimit) TimestampedValue) :
    List TimestampedValue :=
  cs.filterMap fun c => (raw.lookup (c, key)).filter (unexpired expiresIn now)

/-- The creators of a key's raw values are among `cs`, and no expiry time of theirs wraps. -/
structure RawBounds (expiresIn : U128) (cs : List (CreatorId AccountId))
    (key : OracleKey cfg.strLimit)
    (raw : StorageMap (CreatorId AccountId × OracleKey cfg.strLimit) TimestampedValue) : Prop where
  mem : ∀ c x, raw.lookup (c, key) = some x → c ∈ cs
  time : ∀ c x, raw.lookup (c, key) = some x → x.timestamp.toNat + expiresIn.toNat < 2 ^ 128

section Combined

variable {selectNth : Selection TimestampedValue.value} {minimumCount : UInt32}
  {expiresIn : U128} {cs : List (CreatorId AccountId)} {key : OracleKey cfg.strLimit}
  {s : State cfg}

/-- No raw value of the key expires so late that the sum wraps. -/
theorem RawBounds.time_of_mem (h : RawBounds expiresIn cs key s.rawValues) (hcs : cs.Nodup) :
    ∀ x ∈ readRawValues key s, x.timestamp.toNat + expiresIn.toNat < 2 ^ 128 := by
  intro x hx
  obtain ⟨c, _, hlookup⟩ :=
    List.mem_filterMap.mp ((readRawValues_perm hcs h.mem).mem_iff.mp hx)
  exact h.time c x hlookup

/-- The raw values of the key can be counted in a `u32`. -/
theorem RawBounds.length_lt (h : RawBounds expiresIn cs key s.rawValues) (hcs : cs.Nodup)
    (hlen : cs.length < 2 ^ 32) : (readRawValues key s).length < 2 ^ 32 := by
  rw [(readRawValues_perm hcs h.mem).length_eq]
  exact Nat.lt_of_le_of_lt (List.length_filterMap_le _ _) hlen

/-- Those unexpired are the live values of the creators. -/
theorem RawBounds.filter_perm (h : RawBounds expiresIn cs key s.rawValues) (hcs : cs.Nodup)
    (now : U128) :
    ((readRawValues key s).filter (unexpired expiresIn now)).Perm
      (liveValues expiresIn now cs key s.rawValues) := by
  have hperm := (readRawValues_perm hcs h.mem).filter (unexpired expiresIn now)
  rwa [List.filter_filterMap] at hperm

/-- With a quorum of creators, the combined value is a median of their unexpired values. -/
theorem combined_of_quorum
    (hcombine : cfg.combineData = defaultCombineData selectNth minimumCount expiresIn)
    (h : RawBounds expiresIn cs key s.rawValues) (hcs : cs.Nodup) (hlen : cs.length < 2 ^ 32)
    {now : U128}
    (hquorum : quorum minimumCount ≤ (liveValues expiresIn now cs key s.rawValues).length) :
    ∃ x, combined now key s = some x ∧
      IsMedian TimestampedValue.value (liveValues expiresIn now cs key s.rawValues) x := by
  have hperm := h.filter_perm hcs now
  rw [← hperm.length_eq] at hquorum
  rw [combined, hcombine]
  obtain ⟨x, hx, hmedian⟩ := defaultCombineData_of_quorum selectNth key
    (h.time_of_mem hcs) (h.length_lt hcs hlen) hquorum (s.values key)
  exact ⟨x, hx, hmedian.perm hperm⟩

/-- Without one, it is what is published already. -/
theorem combined_of_not_quorum
    (hcombine : cfg.combineData = defaultCombineData selectNth minimumCount expiresIn)
    (h : RawBounds expiresIn cs key s.rawValues) (hcs : cs.Nodup) (hlen : cs.length < 2 ^ 32)
    {now : U128}
    (hquorum : ¬quorum minimumCount ≤ (liveValues expiresIn now cs key s.rawValues).length) :
    combined now key s = s.values key := by
  rw [← (h.filter_perm hcs now).length_eq] at hquorum
  rw [combined, hcombine]
  exact defaultCombineData_of_not_quorum (h.time_of_mem hcs) (h.length_lt hcs hlen) hquorum _

end Combined

/-! ## Feeding one entry -/

section Entry

variable (now : U128) (cid : CreatorId AccountId) (s : State cfg)

@[simp] theorem insertRaw_values (key : OracleKey cfg.strLimit) (x : TimestampedValue) :
    (s.insertRaw cid key x).values = s.values := rfl

/-- A raw value is stored under its creator and its key alone. -/
theorem lookup_insertRaw (key : OracleKey cfg.strLimit) (x : TimestampedValue)
    (c : CreatorId AccountId) (k : OracleKey cfg.strLimit) :
    (s.insertRaw cid key x).rawValues.lookup (c, k) =
      if c = cid ∧ k = key then some x else s.rawValues.lookup (c, k) := by
  unfold State.insertRaw
  split_ifs with h
  · rw [h.1, h.2, AList.lookup_insert]
  · exact AList.lookup_insert_ne fun heq => h (Prod.mk.inj heq)

/-- An entry files the feeder's raw value. -/
@[simp] theorem feedEntry_rawValues (key : OracleKey cfg.strLimit) (value : Int) :
    (feedEntry now cid s (key, value)).rawValues =
      (s.insertRaw cid key ⟨value, now⟩).rawValues := by
  unfold feedEntry
  dsimp only
  split <;> rfl

/-- It leaves the endpoints and who has fed. -/
@[simp] theorem feedEntry_apiFeeds (entry : OracleKey cfg.strLimit × Int) :
    (feedEntry now cid s entry).apiFeeds = s.apiFeeds := by
  unfold feedEntry
  dsimp only
  split <;> rfl

@[simp] theorem feedEntry_hasDispatched (entry : OracleKey cfg.strLimit × Int) :
    (feedEntry now cid s entry).hasDispatched = s.hasDispatched := by
  unfold feedEntry
  dsimp only
  split <;> rfl

/-- It publishes the combined value of its key, if there is one. -/
theorem feedEntry_values_self (key : OracleKey cfg.strLimit) (value : Int) :
    (feedEntry now cid s (key, value)).values key =
      (combined now key (s.insertRaw cid key ⟨value, now⟩)).or (s.values key) := by
  unfold feedEntry
  dsimp only
  split
  · rename_i x hx
    rw [hx]
    exact Function.update_self _ _ _
  · -- nothing is combined and nothing published
    rename_i hx
    rw [hx]
    rfl

/-- An entry publishes nothing of another key. -/
theorem feedEntry_values_of_ne {key k : OracleKey cfg.strLimit} (h : k ≠ key) (value : Int) :
    (feedEntry now cid s (key, value)).values k = s.values k := by
  unfold feedEntry
  dsimp only
  split
  · exact Function.update_of_ne h _ _
  · rfl

end Entry

/-! ## Feeding a list -/

/-- The entries of a feed with the time at which they are fed. -/
def stamped {K : Type} (now : U128) (values : List (K × Int)) : List (K × TimestampedValue) :=
  values.map fun e => (e.1, ⟨e.2, now⟩)

/-- Entries are stamped one by one. -/
theorem stamped_concat {K : Type} (now : U128) (values : List (K × Int)) (e : K × Int) :
    stamped now (values ++ [e]) = stamped now values ++ [(e.1, ⟨e.2, now⟩)] := by
  simp [stamped]

/-- Entries are fed at the time of the call. -/
theorem timestamp_of_lastEntry {K : Type} [DecidableEq K] {now : U128} {values : List (K × Int)}
    {k : K} {x : TimestampedValue} (h : lastEntry (stamped now values) k = some x) :
    x.timestamp = now := by
  induction values using List.reverseRecOn with
  | nil => exact nomatch h
  | append_singleton values e ih =>
    rw [stamped_concat] at h
    by_cases hk : k = e.1
    · -- the entry appended is the last of its key
      rw [hk, lastEntry_concat_self] at h
      cases h
      rfl
    · rw [lastEntry_concat_of_ne _ hk] at h
      exact ih h

section Loop

variable {now : U128} {cid : CreatorId AccountId} {s : State cfg}

/-- The state after the loop over a feed's entries. -/
def feedEntries (now : U128) (cid : CreatorId AccountId)
    (values : List (OracleKey cfg.strLimit × Int)) (s : State cfg) : State cfg :=
  values.foldl (feedEntry now cid) s

/-- The last entry is fed after the others. -/
theorem feedEntries_concat (values : List (OracleKey cfg.strLimit × Int))
    (e : OracleKey cfg.strLimit × Int) :
    feedEntries now cid (values ++ [e]) s = feedEntry now cid (feedEntries now cid values s) e :=
  List.foldl_concat ..

/-- What no entry of a feed changes, the loop leaves as it is. -/
theorem feedEntries_frame {α : Type} {f : State cfg → α}
    (h : ∀ s entry, f (feedEntry now cid s entry) = f s)
    (values : List (OracleKey cfg.strLimit × Int)) : f (feedEntries now cid values s) = f s := by
  induction values using List.reverseRecOn with
  | nil => rfl
  | append_singleton values e ih => rw [feedEntries_concat, h, ih]

@[simp] theorem feedEntries_apiFeeds (values : List (OracleKey cfg.strLimit × Int)) :
    (feedEntries now cid values s).apiFeeds = s.apiFeeds :=
  feedEntries_frame (feedEntry_apiFeeds now cid) values

@[simp] theorem feedEntries_hasDispatched (values : List (OracleKey cfg.strLimit × Int)) :
    (feedEntries now cid values s).hasDispatched = s.hasDispatched :=
  feedEntries_frame (feedEntry_hasDispatched now cid) values

/-- The feeder's raw value of a key becomes its last entry in the list; those of other
    creators stay. -/
theorem lookup_feedEntries (values : List (OracleKey cfg.strLimit × Int))
    (c : CreatorId AccountId) (k : OracleKey cfg.strLimit) :
    (feedEntries now cid values s).rawValues.lookup (c, k) =
      if cid = c then (lastEntry (stamped now values) k).or (s.rawValues.lookup (c, k))
      else s.rawValues.lookup (c, k) := by
  induction values using List.reverseRecOn with
  | nil => split_ifs <;> rfl
  | append_singleton values e ih =>
    obtain ⟨key, value⟩ := e
    rw [feedEntries_concat, feedEntry_rawValues, lookup_insertRaw, ih, stamped_concat]
    by_cases hc : cid = c
    · subst hc
      by_cases hk : k = key
      · -- the entry overwrites the feeder's value of its key
        subst hk
        rw [if_pos ⟨rfl, rfl⟩, if_pos rfl, lastEntry_concat_self]
        rfl
      · rw [if_neg (hk ·.2), if_pos rfl, if_pos rfl, lastEntry_concat_of_ne _ hk]
    · -- another creator's value stays
      rw [if_neg (hc ·.1.symm), if_neg hc, if_neg hc]

/-- A key without entries in the list keeps its published value. -/
theorem values_feedEntries_of_none {values : List (OracleKey cfg.strLimit × Int)}
    {k : OracleKey cfg.strLimit} (h : lastEntry (stamped now values) k = none) :
    (feedEntries now cid values s).values k = s.values k := by
  induction values using List.reverseRecOn with
  | nil => rfl
  | append_singleton values e ih =>
    obtain ⟨key, value⟩ := e
    rw [stamped_concat] at h
    by_cases hk : k = key
    · subst hk
      rw [lastEntry_concat_self] at h
      exact nomatch h
    · rw [lastEntry_concat_of_ne _ hk] at h
      rw [feedEntries_concat, feedEntry_values_of_ne _ _ _ hk, ih h]

variable {expiresIn : U128} {cs : List (CreatorId AccountId)} {k : OracleKey cfg.strLimit}

/-- The bounds survive a feed whose own values do not wrap. -/
theorem RawBounds.feedEntries (h : RawBounds expiresIn cs k s.rawValues) (hcid : cid ∈ cs)
    (hnow : now.toNat + expiresIn.toNat < 2 ^ 128)
    (values : List (OracleKey cfg.strLimit × Int)) :
    RawBounds expiresIn cs k (feedEntries now cid values s).rawValues := by
  -- a raw value is the feeder's, of this call, or was there before
  have hnew : ∀ c x, (ParaOracle.feedEntries now cid values s).rawValues.lookup (c, k) = some x →
      (c = cid ∧ x.timestamp = now) ∨ s.rawValues.lookup (c, k) = some x := by
    intro c x hx
    rw [lookup_feedEntries] at hx
    split_ifs at hx with hc
    · rcases Option.or_eq_some_iff.mp hx with hx | ⟨_, hx⟩
      · exact .inl ⟨hc.symm, timestamp_of_lastEntry hx⟩
      · exact .inr hx
    · exact .inr hx
  constructor
  · intro c x hx
    rcases hnew c x hx with ⟨rfl, _⟩ | hx
    · exact hcid
    · exact h.mem c x hx
  · intro c x hx
    rcases hnew c x hx with ⟨_, rfl⟩ | hx
    · exact hnow
    · exact h.time c x hx

/-- Feeding a key again in the same call neither adds nor removes a live value. -/
theorem length_liveValues_feedEntry {values : List (OracleKey cfg.strLimit × Int)}
    (h : (lastEntry (stamped now values) k).isSome) (value : Int) :
    (liveValues expiresIn now cs k (feedEntry now cid (feedEntries now cid values s)
      (k, value)).rawValues).length =
    (liveValues expiresIn now cs k (feedEntries now cid values s).rawValues).length := by
  rw [liveValues, liveValues, List.length_filterMap_eq_countP, List.length_filterMap_eq_countP]
  refine List.countP_congr fun c _ => ?_
  rw [feedEntry_rawValues, lookup_insertRaw]
  split_ifs with hc
  · -- both values of the feeder are fed now
    obtain ⟨x, hx⟩ := Option.isSome_iff_exists.mp h
    rw [lookup_feedEntries, if_pos hc.1.symm, hx, Option.some_or]
    simp [Option.isSome_filter, unexpired, timestamp_of_lastEntry hx]
  · rfl

/-- An entry of another key leaves the live values of this one. -/
theorem liveValues_feedEntry_of_ne {key : OracleKey cfg.strLimit} (h : k ≠ key) (value : Int) :
    liveValues expiresIn now cs k (feedEntry now cid s (key, value)).rawValues =
      liveValues expiresIn now cs k s.rawValues := by
  unfold liveValues
  congr 1
  funext c
  rw [feedEntry_rawValues, lookup_insertRaw, if_neg (h ·.2)]

section Publish

variable {selectNth : Selection TimestampedValue.value} {minimumCount : UInt32}
  (hcombine : cfg.combineData = defaultCombineData selectNth minimumCount expiresIn)
  (h : RawBounds expiresIn cs k s.rawValues) (hcs : cs.Nodup) (hlen : cs.length < 2 ^ 32)
  (hcid : cid ∈ cs) (hnow : now.toNat + expiresIn.toNat < 2 ^ 128)
  {values : List (OracleKey cfg.strLimit × Int)}
include hcombine h hcs hlen hcid hnow

/-- A feed with entries of a key that meets the quorum publishes a median of the unexpired
    raw values as it leaves them. -/
theorem values_feedEntries_of_quorum (hk : (lastEntry (stamped now values) k).isSome)
    (hquorum : quorum minimumCount ≤
      (liveValues expiresIn now cs k (feedEntries now cid values s).rawValues).length) :
    ∃ x, (feedEntries now cid values s).values k = some x ∧ IsMedian TimestampedValue.value
      (liveValues expiresIn now cs k (feedEntries now cid values s).rawValues) x := by
  induction values using List.reverseRecOn with
  | nil => exact nomatch hk
  | append_singleton values e ih =>
    obtain ⟨key, value⟩ := e
    have hbounds := h.feedEntries hcid hnow (values ++ [(key, value)])
    rw [feedEntries_concat] at hbounds hquorum ⊢
    by_cases hkey : k = key
    · -- the last entry of the key: what it combines is what the loop leaves
      subst hkey
      rw [feedEntry_rawValues] at hbounds hquorum ⊢
      obtain ⟨x, hx, hmedian⟩ := combined_of_quorum hcombine hbounds hcs hlen hquorum
      rw [feedEntry_values_self, hx]
      exact ⟨x, rfl, hmedian⟩
    · -- an entry of another key changes nothing of this one
      rw [stamped_concat, lastEntry_concat_of_ne _ hkey] at hk
      rw [liveValues_feedEntry_of_ne hkey] at hquorum ⊢
      rw [feedEntry_values_of_ne _ _ _ hkey]
      exact ih hk hquorum

/-- A feed that does not meet the quorum of a key leaves its published value. -/
theorem values_feedEntries_of_not_quorum
    (hquorum : ¬quorum minimumCount ≤
      (liveValues expiresIn now cs k (feedEntries now cid values s).rawValues).length) :
    (feedEntries now cid values s).values k = s.values k := by
  induction values using List.reverseRecOn with
  | nil => rfl
  | append_singleton values e ih =>
    obtain ⟨key, value⟩ := e
    have hbounds := h.feedEntries hcid hnow (values ++ [(key, value)])
    rw [feedEntries_concat] at hbounds hquorum ⊢
    by_cases hkey : k = key
    · -- no quorum: the entry publishes again what is published before it
      subst hkey
      have hsame := combined_of_not_quorum (s := State.insertRaw _ _ _ _) hcombine
        (by rwa [feedEntry_rawValues] at hbounds) hcs hlen
        (by rwa [feedEntry_rawValues] at hquorum)
      rw [feedEntry_values_self, hsame, insertRaw_values, Option.or_self]
      -- earlier entries of the key saw the same creators, so no quorum either
      cases hlast : lastEntry (stamped now values) k with
      | none => exact values_feedEntries_of_none hlast
      | some x =>
        rw [length_liveValues_feedEntry (by rw [hlast]; rfl)] at hquorum
        exact ih hquorum
    · rw [liveValues_feedEntry_of_ne hkey] at hquorum
      rw [feedEntry_values_of_ne _ _ _ hkey]
      exact ih hquorum

end Publish

end Loop

end Paraxiom.ParaOracle
