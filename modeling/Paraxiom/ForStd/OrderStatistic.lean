import Mathlib

/-!
# Order statistics and partial sorts

`nthSmallest l i` is the element at index `i` of the sorted list. A partial sort only puts
one element in its sorted position, with the smaller ones before it and the larger ones
after it; `nthSmallest_of_split` says that this element has the value of the order
statistic, whatever the order of the rest and however ties are broken. Conversely an order
statistic splits its list, which bounds how many elements lie on either side of it
(`countP_lt_le`, `countP_gt_le`) and keeps the median in every range that holds more than
half of the elements (`median_mem_range`).

`Selection key` is such a partial sort by a key, with what it promises as a field.
-/

namespace OrderStatistic

variable {α β : Type} [LinearOrder β]

/-- The element at index `i` of `l` in increasing order. -/
def nthSmallest (l : List β) (i : Nat) : Option β := (l.insertionSort (· ≤ ·))[i]?

/-- A list between smaller and larger elements is sorted around its middle. -/
theorem insertionSort_split {l before after : List β} {x : β}
    (hperm : l.Perm (before ++ x :: after)) (hbefore : ∀ a ∈ before, a ≤ x)
    (hafter : ∀ a ∈ after, x ≤ a) :
    l.insertionSort (· ≤ ·) =
      before.insertionSort (· ≤ ·) ++ x :: after.insertionSort (· ≤ ·) := by
  -- both sides are sorted arrangements of the same elements
  have hsorted : (before.insertionSort (· ≤ ·) ++ x :: after.insertionSort (· ≤ ·)).Pairwise
      (· ≤ ·) := by
    rw [List.pairwise_append, List.pairwise_cons]
    refine ⟨List.pairwise_insertionSort _ _, ⟨?_, List.pairwise_insertionSort _ _⟩, ?_⟩
    · intro a ha
      exact hafter a ((List.mem_insertionSort _).mp ha)
    · intro a ha b hb
      have hax := hbefore a ((List.mem_insertionSort _).mp ha)
      rcases List.mem_cons.mp hb with rfl | hb
      · exact hax
      · exact hax.trans (hafter b ((List.mem_insertionSort _).mp hb))
  refine List.Perm.eq_of_pairwise' (List.pairwise_insertionSort _ _) hsorted ?_
  calc (l.insertionSort (· ≤ ·)).Perm l := List.perm_insertionSort _ l
    List.Perm _ (before ++ x :: after) := hperm
    List.Perm _ (before.insertionSort (· ≤ ·) ++ x :: after.insertionSort (· ≤ ·)) :=
      (List.perm_insertionSort _ before).symm.append
        ((List.perm_insertionSort _ after).symm.cons x)

/-- An element with `i` smaller ones before it and the larger ones after it is the one at
    index `i`. -/
theorem nthSmallest_of_split {l before after : List β} {x : β}
    (hperm : l.Perm (before ++ x :: after)) (hbefore : ∀ a ∈ before, a ≤ x)
    (hafter : ∀ a ∈ after, x ≤ a) : nthSmallest l before.length = some x := by
  rw [nthSmallest, insertionSort_split hperm hbefore hafter, List.getElem?_append_right (by simp)]
  simp

/-- The order of the list plays no role. -/
theorem nthSmallest_perm {l l' : List β} (h : l.Perm l') (i : Nat) :
    nthSmallest l i = nthSmallest l' i := by
  have hsort : l.insertionSort (· ≤ ·) = l'.insertionSort (· ≤ ·) :=
    List.Perm.eq_of_pairwise' (List.pairwise_insertionSort _ _) (List.pairwise_insertionSort _ _)
      ((List.perm_insertionSort _ l).trans (h.trans (List.perm_insertionSort _ l').symm))
  rw [nthSmallest, nthSmallest, hsort]

/-! ## Elements on either side -/

/-- A sorted list splits at an index into what comes before and what comes after. -/
theorem split_of_pairwise {α : Type} {rel : α → α → Prop} {l : List α} (h : l.Pairwise rel)
    (i : Nat) (hi : i < l.length) :
    ∃ before after, l = before ++ l[i] :: after ∧ before.length = i ∧
      (∀ a ∈ before, rel a l[i]) ∧ ∀ a ∈ after, rel l[i] a := by
  have hsplit : l = l.take i ++ l[i] :: l.drop (i + 1) := by simp
  rw [hsplit, List.pairwise_append, List.pairwise_cons] at h
  refine ⟨l.take i, l.drop (i + 1), hsplit, List.length_take_of_le (by omega), ?_, h.2.1.1⟩
  intro a ha
  exact h.2.2 a ha _ List.mem_cons_self

section Counting

variable {l : List β} {i : Nat} {x : β}

/-- An order statistic splits its list. -/
theorem split_of_nthSmallest (h : nthSmallest l i = some x) :
    ∃ before after, l.Perm (before ++ x :: after) ∧ before.length = i ∧
      (∀ a ∈ before, a ≤ x) ∧ ∀ a ∈ after, x ≤ a := by
  obtain ⟨hi, hx⟩ := List.getElem?_eq_some_iff.mp h
  obtain ⟨before, after, hsplit, hlen, hbefore, hafter⟩ :=
    split_of_pairwise (List.pairwise_insertionSort (· ≤ ·) l) i hi
  rw [hx] at hsplit hbefore hafter
  exact ⟨before, after, (List.perm_insertionSort _ l).symm.trans (List.Perm.of_eq hsplit), hlen,
    hbefore, hafter⟩

/-- At most `i` elements are smaller than the one at index `i`. -/
theorem countP_lt_le (h : nthSmallest l i = some x) : l.countP (· < x) ≤ i := by
  obtain ⟨before, after, hperm, hlen, _, hafter⟩ := split_of_nthSmallest h
  have hnone : (x :: after).countP (· < x) = 0 := by
    rw [List.countP_eq_zero]
    intro a ha
    rcases List.mem_cons.mp ha with rfl | ha
    · simp
    · simp [hafter a ha]
  rw [hperm.countP_eq, List.countP_append, hnone, ← hlen]
  exact List.countP_le_length

/-- The elements larger than the one at index `i` all come after it. -/
theorem countP_gt_le (h : nthSmallest l i = some x) : l.countP (x < ·) ≤ l.length - 1 - i := by
  obtain ⟨before, after, hperm, hlen, hbefore, _⟩ := split_of_nthSmallest h
  have hnone : before.countP (x < ·) = 0 := by
    rw [List.countP_eq_zero]
    intro a ha
    simp [hbefore a ha]
  have hself : (x :: after).countP (x < ·) = after.countP (x < ·) := by simp
  have hlength : l.length = before.length + (after.length + 1) := by
    rw [hperm.length_eq, List.length_append, List.length_cons]
  have hafter : after.countP (x < ·) ≤ after.length := List.countP_le_length
  rw [hperm.countP_eq, List.countP_append, hnone, hself]
  omega

/-- With fewer than half of the elements outside a range, the median is inside. -/
theorem median_mem_range {lo hi : β} (h : nthSmallest l (l.length / 2) = some x)
    (hcount : 2 * l.countP (fun a => ¬(lo ≤ a ∧ a ≤ hi)) < l.length) : lo ≤ x ∧ x ≤ hi := by
  obtain ⟨before, after, hperm, hlen, hbefore, hafter⟩ := split_of_nthSmallest h
  have hlength : l.length = before.length + (after.length + 1) := by
    rw [hperm.length_eq, List.length_append, List.length_cons]
  have hsplit : l.countP (fun a => ¬(lo ≤ a ∧ a ≤ hi)) =
      before.countP (fun a => ¬(lo ≤ a ∧ a ≤ hi)) +
        (x :: after).countP (fun a => ¬(lo ≤ a ∧ a ≤ hi)) := by
    rw [hperm.countP_eq, List.countP_append]
  by_contra hout
  -- the median takes its own side of the list out of the range with it
  by_cases hlo : lo ≤ x
  · have hall : (x :: after).countP (fun a => ¬(lo ≤ a ∧ a ≤ hi)) = (x :: after).length := by
      rw [List.countP_eq_length]
      intro a ha
      have hxa : x ≤ a := by
        rcases List.mem_cons.mp ha with rfl | ha
        · exact le_rfl
        · exact hafter a ha
      simp only [decide_eq_true_eq]
      exact fun hin => hout ⟨hlo, hxa.trans hin.2⟩
    rw [List.length_cons] at hall
    omega
  · have hall : before.countP (fun a => ¬(lo ≤ a ∧ a ≤ hi)) = before.length := by
      rw [List.countP_eq_length]
      intro a ha
      simp only [decide_eq_true_eq]
      exact fun hin => hlo (hin.1.trans (hbefore a ha))
    have hself : 0 < (x :: after).countP (fun a => ¬(lo ≤ a ∧ a ≤ hi)) := by
      rw [List.countP_pos_iff]
      exact ⟨x, List.mem_cons_self, by simp only [decide_eq_true_eq]; exact hout⟩
    omega

end Counting

/-! ## Partial sorts -/

/-- A partial sort by a key: `select l i` is what ends up at index `i`. -/
structure Selection (key : α → β) where
  select : (l : List α) → Fin l.length → α
  splits : ∀ l i, ∃ before after, l.Perm (before ++ select l i :: after) ∧
    before.length = i.val ∧ (∀ a ∈ before, key a ≤ key (select l i)) ∧
    ∀ a ∈ after, key (select l i) ≤ key a

namespace Selection

variable {key : α → β}

theorem select_mem (sel : Selection key) (l : List α) (i : Fin l.length) : sel.select l i ∈ l := by
  obtain ⟨before, after, hperm, _⟩ := sel.splits l i
  exact hperm.mem_iff.mpr (by simp)

/-- The key of the selected element is the order statistic of the keys. -/
theorem nthSmallest_select (sel : Selection key) (l : List α) (i : Fin l.length) :
    nthSmallest (l.map key) i = some (key (sel.select l i)) := by
  obtain ⟨before, after, hperm, hlen, hbefore, hafter⟩ := sel.splits l i
  have h := hperm.map key
  rw [List.map_append, List.map_cons] at h
  rw [← hlen, ← List.length_map key]
  refine nthSmallest_of_split h ?_ ?_
  · exact List.forall_mem_map.mpr hbefore
  · exact List.forall_mem_map.mpr hafter

/-- Sort a list by a key. -/
def sortBy (key : α → β) (l : List α) : List α := l.insertionSort (key · ≤ key ·)

theorem sortBy_perm (key : α → β) (l : List α) : (sortBy key l).Perm l :=
  List.perm_insertionSort _ l

theorem length_sortBy (key : α → β) (l : List α) : (sortBy key l).length = l.length :=
  (sortBy_perm key l).length_eq

theorem pairwise_sortBy (key : α → β) (l : List α) :
    (sortBy key l).Pairwise (key · ≤ key ·) := by
  have : Std.Total fun a b : α => key a ≤ key b := ⟨fun a b => le_total (key a) (key b)⟩
  have : IsTrans α fun a b : α => key a ≤ key b := ⟨fun _ _ _ => le_trans⟩
  exact List.pairwise_insertionSort _ l

/-- Sorting the whole list is one way. -/
def ofSort (key : α → β) : Selection key where
  select l i := (sortBy key l).get (i.cast (length_sortBy key l).symm)
  splits l i := by
    have hlt : i < (sortBy key l).length := by rw [length_sortBy]; exact i.isLt
    obtain ⟨before, after, hsplit, hlen, hbefore, hafter⟩ :=
      split_of_pairwise (pairwise_sortBy key l) i hlt
    exact ⟨before, after, (sortBy_perm key l).symm.trans (List.Perm.of_eq hsplit), hlen, hbefore,
      hafter⟩

end Selection

end OrderStatistic
