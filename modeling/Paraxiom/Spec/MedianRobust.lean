import Paraxiom.Spec.ParaOracleSteps

/-!
# A minority of bad feeders does not move the combined value

Below the quorum the default combination keeps the previous value. From the quorum on, it
returns an unexpired entry with at most half of the others on either side of its value, so
feeders who hold less than half of the entries cannot take the value out of the range of
the rest. The value does not depend on the order of the entries.
-/

namespace Paraxiom.ParaOracle

open OrderStatistic QuorumLog

/-! ## Medians of entries -/

section Medians

variable {X V : Type} [LinearOrder V] {value : X → V} {xs : List X} {x : X}

/-- At most half of the entries have a smaller value. -/
theorem countP_lt_of_isMedian (h : IsMedian value xs x) :
    xs.countP (fun y => value y < value x) ≤ xs.length / 2 := by
  have hcount := countP_lt_le h.2
  rwa [List.countP_map] at hcount

/-- At most the rest but one have a larger value. -/
theorem countP_gt_of_isMedian (h : IsMedian value xs x) :
    xs.countP (fun y => value x < value y) ≤ xs.length - 1 - xs.length / 2 := by
  have hcount := countP_gt_le h.2
  rwa [List.countP_map, List.length_map] at hcount

/-- A range that leaves out fewer than half of the entries has the median. -/
theorem mem_range_of_isMedian (h : IsMedian value xs x) {lo hi : V}
    (hcount : 2 * xs.countP (fun y => ¬(lo ≤ value y ∧ value y ≤ hi)) < xs.length) :
    lo ≤ value x ∧ value x ≤ hi := by
  have hmedian := h.2
  rw [← List.length_map value] at hmedian
  refine median_mem_range hmedian ?_
  rwa [List.countP_map, List.length_map]

/-- Two medians of the same entries have the same value. -/
theorem isMedian_unique {y : X} (hx : IsMedian value xs x) (hy : IsMedian value xs y) :
    value x = value y :=
  Option.some.inj (hx.2.symm.trans hy.2)

end Medians

/-! ## The combination -/

section Combination

variable {K : Type} {selectNth : Selection TimestampedValue.value} {minimumCount : UInt32}
  {expiresIn now : U128} {key : K} {values : List TimestampedValue}

/-- In another order, the entries combine to the same value. -/
theorem defaultCombineData_perm {values' : List TimestampedValue}
    (htime : ∀ x ∈ values, x.timestamp.toNat + expiresIn.toNat < 2 ^ 128)
    (hlen : values.length < 2 ^ 32)
    (hquorum : quorum minimumCount ≤ (values.filter (unexpired expiresIn now)).length)
    (hperm : values.Perm values') (prevValue : Option TimestampedValue) :
    (defaultCombineData selectNth minimumCount expiresIn now key values' prevValue).map
        (·.value) =
      (defaultCombineData selectNth minimumCount expiresIn now key values prevValue).map
        (·.value) := by
  have hlive := hperm.filter (unexpired expiresIn now)
  obtain ⟨x, hx, hmedian⟩ := defaultCombineData_of_quorum selectNth key
    htime hlen hquorum prevValue
  obtain ⟨x', hx', hmedian'⟩ := defaultCombineData_of_quorum selectNth key
    (fun y hy => htime y (hperm.mem_iff.mpr hy)) (hperm.length_eq ▸ hlen)
    (hlive.length_eq ▸ hquorum) prevValue
  rw [hx, hx', Option.map_some, Option.map_some, isMedian_unique (hmedian'.perm hlive.symm) hmedian]

/-- The default combination is robust against a minority of bad entries. -/
theorem combine_data_robust (selectNth : Selection TimestampedValue.value)
    (minimumCount : UInt32) (expiresIn now : U128) (key : K) (values : List TimestampedValue)
    (prevValue : Option TimestampedValue)
    (htime : ∀ x ∈ values, x.timestamp.toNat + expiresIn.toNat < 2 ^ 128)
    (hlen : values.length < 2 ^ 32) (live : List TimestampedValue)
    (hlive : live = values.filter fun x => now.toNat < x.timestamp.toNat + expiresIn.toNat) :
    (live.length = 0 ∨ live.length < minimumCount.toNat →
      defaultCombineData selectNth minimumCount expiresIn now key values prevValue = prevValue) ∧
    (¬(live.length = 0 ∨ live.length < minimumCount.toNat) →
      ∃ x ∈ live,
        defaultCombineData selectNth minimumCount expiresIn now key values prevValue = some x ∧
        live.countP (fun y => y.value < x.value) ≤ live.length / 2 ∧
        live.countP (fun y => x.value < y.value) ≤ live.length - 1 - live.length / 2 ∧
        (∀ values', values.Perm values' →
          (defaultCombineData selectNth minimumCount expiresIn now key values' prevValue).map
            (·.value) = some x.value) ∧
        ∀ lo hi, lo ≤ hi →
          2 * live.countP (fun y => ¬(lo ≤ y.value ∧ y.value ≤ hi)) < live.length →
          lo ≤ x.value ∧ x.value ≤ hi) := by
  have hsame : values.filter (unexpired expiresIn now) = live := by rw [hlive]; rfl
  -- the two guards of the source are one quorum, of at least one entry
  have hquorum : quorum minimumCount ≤ (values.filter (unexpired expiresIn now)).length ↔
      ¬(live.length = 0 ∨ live.length < minimumCount.toNat) := by
    rw [hsame, quorum]
    omega
  constructor
  · intro hfew
    exact defaultCombineData_of_not_quorum htime hlen (by rw [hquorum, not_not]; exact hfew)
      prevValue
  · intro hmany
    have henough := hquorum.mpr hmany
    obtain ⟨x, hx, hmedian⟩ := defaultCombineData_of_quorum selectNth key
      htime hlen henough prevValue
    rw [hsame] at hmedian
    refine ⟨x, hmedian.1, hx, countP_lt_of_isMedian hmedian, countP_gt_of_isMedian hmedian, ?_, ?_⟩
    · intro values' hperm
      rw [defaultCombineData_perm htime hlen henough hperm, hx, Option.map_some]
    · intro lo hi _ hcount
      exact mem_range_of_isMedian hmedian hcount

end Combination

/-- Two of three unexpired entries are between 9 and 11, so the value is. -/
theorem combine_data_robust_sample :
    ∃ x : TimestampedValue, defaultCombineData (Selection.ofSort _) 2 100 50 ()
        [⟨10, 5⟩, ⟨1000, 6⟩, ⟨11, 7⟩] none = some x ∧ 9 ≤ x.value ∧ x.value ≤ 11 := by
  have h := (combine_data_robust (Selection.ofSort _) 2 100 50 ()
    [⟨10, 5⟩, ⟨1000, 6⟩, ⟨11, 7⟩] none (by decide) (by decide) _ rfl).2 (by decide)
  obtain ⟨x, _, hx, _, _, _, hrange⟩ := h
  exact ⟨x, hx, hrange 9 11 (by decide) (by decide)⟩

end Paraxiom.ParaOracle
