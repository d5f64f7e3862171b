import Mathlib

/-!
# Removal within a budget

`removeFirst p n l` removes from `l` the first `n` elements that satisfy `p`, or all of them
if there are fewer, and `removed p n l` is what it removes. It is what a loop does that walks
a list, removes what satisfies `p` and stops removing once its budget is spent.

## Key results

- `removed_append_removeFirst_perm`: what is removed and what stays are the list again
- `removeFirst_eq_filter`: without repetitions, what stays is what is not removed
-/

namespace BudgetedRemoval

variable {α : Type}

/-- Remove the first `n` elements that satisfy `p`. -/
def removeFirst (p : α → Bool) : Nat → List α → List α
  | _, [] => []
  | 0, l => l
  | n + 1, a :: l => if p a then removeFirst p n l else a :: removeFirst p (n + 1) l

/-- The first `n` elements that satisfy `p`. -/
def removed (p : α → Bool) (n : Nat) (l : List α) : List α := (l.filter p).take n

variable (p : α → Bool)

@[simp] theorem removeFirst_nil (n : Nat) : removeFirst p n [] = [] := by
  cases n <;> rfl

@[simp] theorem removed_nil (n : Nat) : removed p n [] = [] := List.take_nil

/-- Without a budget everything stays. -/
@[simp] theorem removeFirst_zero (l : List α) : removeFirst p 0 l = l := by
  cases l <;> rfl

/-- Without a budget nothing is removed. -/
@[simp] theorem removed_zero (l : List α) : removed p 0 l = [] := List.take_zero

/-- An element that satisfies `p` costs one of the budget. -/
theorem removeFirst_cons_of_pos {a : α} (h : p a = true) (n : Nat) (l : List α) :
    removeFirst p (n + 1) (a :: l) = removeFirst p n l := by
  rw [removeFirst, if_pos h]

/-- And it is the first to be removed. -/
theorem removed_cons_of_pos {a : α} (h : p a = true) (n : Nat) (l : List α) :
    removed p (n + 1) (a :: l) = a :: removed p n l := by
  rw [removed, List.filter_cons_of_pos h, List.take_succ_cons, removed]

/-- An element that does not satisfy `p`, or comes after the budget is spent, stays. -/
theorem removeFirst_cons_of_neg {a : α} {n : Nat} (h : ¬p a = true ∨ n = 0) (l : List α) :
    removeFirst p n (a :: l) = a :: removeFirst p n l := by
  cases n with
  | zero => rw [removeFirst_zero, removeFirst_zero]
  | succ n => rw [removeFirst, if_neg (h.resolve_right n.succ_ne_zero)]

/-- An element that stays is not removed. -/
theorem removed_cons_of_neg {a : α} {n : Nat} (h : ¬p a = true ∨ n = 0) (l : List α) :
    removed p n (a :: l) = removed p n l := by
  rcases h with h | rfl
  · rw [removed, List.filter_cons_of_neg h, removed]
  · rw [removed_zero, removed_zero]

/-- What is removed and what stays are the list again. -/
theorem removed_append_removeFirst_perm (n : Nat) (l : List α) :
    (removed p n l ++ removeFirst p n l).Perm l := by
  induction l generalizing n with
  | nil => rw [removed_nil, removeFirst_nil]; rfl
  | cons a l ih =>
    cases n with
    | zero => rw [removed_zero, removeFirst_zero]; rfl
    | succ n =>
      by_cases h : p a = true
      · rw [removeFirst_cons_of_pos p h, removed_cons_of_pos p h, List.cons_append]
        exact (ih n).cons a
      · rw [removeFirst_cons_of_neg p (.inl h), removed_cons_of_neg p (.inl h)]
        exact List.perm_middle.trans ((ih (n + 1)).cons a)

/-- What stays keeps its order. -/
theorem removeFirst_sublist (n : Nat) (l : List α) : (removeFirst p n l).Sublist l := by
  induction l generalizing n with
  | nil => rw [removeFirst_nil]
  | cons a l ih =>
    cases n with
    | zero => rw [removeFirst_zero]
    | succ n =>
      by_cases h : p a = true
      · rw [removeFirst_cons_of_pos p h]
        exact (ih n).cons a
      · rw [removeFirst_cons_of_neg p (.inl h)]
        exact (ih (n + 1)).cons_cons a

/-- No more is removed than the budget allows. -/
theorem length_removed_le (n : Nat) (l : List α) : (removed p n l).length ≤ n :=
  List.length_take_le n _

/-- Only what satisfies `p` is removed. -/
theorem mem_of_mem_removed {a : α} {n : Nat} {l : List α} (h : a ∈ removed p n l) :
    a ∈ l ∧ p a = true := List.mem_filter.mp (List.mem_of_mem_take h)

/-- Without repetitions, what stays is what is not removed. -/
theorem removeFirst_eq_filter [DecidableEq α] (n : Nat) {l : List α} (hl : l.Nodup) :
    removeFirst p n l = l.filter fun a => a ∉ removed p n l := by
  have hperm := removed_append_removeFirst_perm p n l
  obtain ⟨_, hstay, hdisj⟩ := List.nodup_append.mp (hperm.nodup_iff.mpr hl)
  have hmem : ∀ a, a ∈ removeFirst p n l ↔ a ∈ l.filter fun a => a ∉ removed p n l := by
    intro a
    rw [List.mem_filter, decide_eq_true_eq, ← hperm.mem_iff, List.mem_append]
    constructor
    · intro ha
      exact ⟨.inr ha, fun ha' => hdisj a ha' a ha rfl⟩
    · rintro ⟨ha | ha, hnot⟩
      · exact absurd ha hnot
      · exact ha
  -- two sublists of `l` with the same elements, one in the other
  have hsub := (removeFirst_sublist p n l).filter fun a => a ∉ removed p n l
  rw [List.filter_eq_self.mpr fun a ha => (List.mem_filter.mp ((hmem a).mp ha)).2] at hsub
  exact hsub.eq_of_length
    ((List.perm_ext_iff_of_nodup hstay (hl.filter _)).mpr hmem).length_eq

variable {p}

/-- Removal looks at the elements of the list only. -/
theorem removeFirst_congr {q : α → Bool} {l : List α} (h : ∀ a ∈ l, p a = q a) (n : Nat) :
    removeFirst p n l = removeFirst q n l := by
  induction l generalizing n with
  | nil => rw [removeFirst_nil, removeFirst_nil]
  | cons a l ih =>
    have ha := h a List.mem_cons_self
    have ih := fun n => ih (fun b hb => h b (List.mem_cons_of_mem a hb)) n
    cases n with
    | zero => rw [removeFirst_zero, removeFirst_zero]
    | succ n => rw [removeFirst, removeFirst, ha, ih, ih]

/-- And so does what is removed. -/
theorem removed_congr {q : α → Bool} {l : List α} (h : ∀ a ∈ l, p a = q a) (n : Nat) :
    removed p n l = removed q n l := congrArg (List.take n) (List.filter_congr h)

end BudgetedRemoval
