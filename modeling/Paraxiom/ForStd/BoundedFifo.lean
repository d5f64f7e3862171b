import Mathlib

/-!
# Bounded FIFO queues

The abstract queue: every message ever pushed, oldest first, and how many of them have
been consumed. Both invariants (no more is consumed than was pushed, and at most
`capacity` messages wait) are fields, so a queue that violates them cannot be built.
-/

/-- A FIFO queue that never holds more than `capacity` waiting messages. -/
structure BoundedFifo (α : Type) (capacity : Nat) where
  pushed : List α
  consumed : Nat
  consumed_le : consumed ≤ pushed.length
  pending_le : pushed.length - consumed ≤ capacity

namespace BoundedFifo

variable {α : Type} {capacity : Nat}

/-- A queue is its messages and how many of them are consumed. -/
@[ext] theorem ext {q q' : BoundedFifo α capacity} (hp : q.pushed = q'.pushed)
    (hc : q.consumed = q'.consumed) : q = q' := by
  cases q; cases q'; simp_all

/-- The queue to which nothing was pushed. -/
def empty : BoundedFifo α capacity := ⟨[], 0, Nat.le_refl _, Nat.zero_le _⟩

/-- The messages that wait, oldest first. -/
def pending (q : BoundedFifo α capacity) : List α := q.pushed.drop q.consumed

/-- The message with index `i`, while it waits. -/
def peek (q : BoundedFifo α capacity) (i : Nat) : Option α :=
  if q.consumed ≤ i then q.pushed[i]? else none

/-- Append a message; fails on a full queue. -/
def push? (q : BoundedFifo α capacity) (a : α) : Option (BoundedFifo α capacity) :=
  if h : q.pushed.length - q.consumed < capacity then
    some ⟨q.pushed ++ [a], q.consumed, by
      have := q.consumed_le
      simp only [List.length_append, List.length_singleton]; omega, by
      have := q.consumed_le
      simp only [List.length_append, List.length_singleton]; omega⟩
  else none

/-- Consume every message below index `x`; fails unless `consumed ≤ x ≤ pushed`. -/
def consumeTo? (q : BoundedFifo α capacity) (x : Nat) : Option (BoundedFifo α capacity) :=
  if h : q.consumed ≤ x ∧ x ≤ q.pushed.length then
    some ⟨q.pushed, x, h.2, by have := q.pending_le; omega⟩
  else none

/-- A push that succeeds found room, and appended. -/
theorem push?_eq_some {q q' : BoundedFifo α capacity} {a : α} :
    q.push? a = some q' ↔ q.pushed.length - q.consumed < capacity ∧
      q'.pushed = q.pushed ++ [a] ∧ q'.consumed = q.consumed := by
  unfold push?
  split
  · rename_i h
    simp only [Option.some.injEq, h, true_and]
    exact ⟨fun he => by subst he; exact ⟨rfl, rfl⟩, fun he => ext he.1.symm he.2.symm⟩
  · rename_i h
    simp [h]

/-- A consumption that succeeds went forward, and not past the end. -/
theorem consumeTo?_eq_some {q q' : BoundedFifo α capacity} {x : Nat} :
    q.consumeTo? x = some q' ↔ (q.consumed ≤ x ∧ x ≤ q.pushed.length) ∧
      q'.pushed = q.pushed ∧ q'.consumed = x := by
  unfold consumeTo?
  split
  · rename_i h
    simp only [Option.some.injEq, h, true_and, and_self]
    exact ⟨fun he => by subst he; exact ⟨rfl, rfl⟩, fun he => ext he.1.symm he.2.symm⟩
  · rename_i h
    simp [h]

/-- Pushing appends to the waiting messages and disturbs none of them. -/
theorem pending_push? {q q' : BoundedFifo α capacity} {a : α} (h : q.push? a = some q') :
    q'.pending = q.pending ++ [a] := by
  obtain ⟨_, hp, hc⟩ := push?_eq_some.mp h
  rw [pending, pending, hp, hc, List.drop_append_of_le_length q.consumed_le]

/-- Consuming takes waiting messages off the front, in order. -/
theorem pending_consumeTo? {q q' : BoundedFifo α capacity} {x : Nat}
    (h : q.consumeTo? x = some q') :
    q.pending = (q.pushed.take x).drop q.consumed ++ q'.pending := by
  obtain ⟨⟨hcx, hxp⟩, hp, hc⟩ := consumeTo?_eq_some.mp h
  have hlen : (q.pushed.take x).length = x := List.length_take_of_le hxp
  rw [pending, pending, hp, hc]
  -- cut the messages where the consumption ends
  conv_lhs => rw [← List.take_append_drop x q.pushed]
  rw [List.drop_append_of_le_length (by omega)]

/-- No more messages wait than the queue holds. -/
theorem length_pending_le (q : BoundedFifo α capacity) : q.pending.length ≤ capacity := by
  rw [pending, List.length_drop]
  exact q.pending_le

/-- The message with an index is there from its push until it is consumed. -/
theorem peek_eq_some_iff {q : BoundedFifo α capacity} {i : Nat} {a : α} :
    q.peek i = some a ↔ q.consumed ≤ i ∧ q.pushed[i]? = some a := by
  unfold peek
  split <;> simp_all

/-- A push is seen at the next index, and nowhere else. -/
theorem peek_push? {q q' : BoundedFifo α capacity} {a : α} (h : q.push? a = some q') (i : Nat) :
    q'.peek i = if i = q.pushed.length then some a else q.peek i := by
  obtain ⟨_, hp, hc⟩ := push?_eq_some.mp h
  have hle := q.consumed_le
  unfold peek
  rw [hp, hc]
  by_cases hi : i = q.pushed.length
  · subst hi
    simp [hle]
  · rw [if_neg hi, List.getElem?_append]
    split
    · split
      · rfl
      · -- past the new message there is nothing, before or after
        have hlt : q.pushed.length < i := by omega
        rw [List.getElem?_eq_none (by simp; omega), List.getElem?_eq_none (by omega)]
    · rfl

/-- A consumption hides what lies before its new start. -/
theorem peek_consumeTo? {q q' : BoundedFifo α capacity} {x : Nat} (h : q.consumeTo? x = some q')
    (i : Nat) : q'.peek i = if q.consumed ≤ i ∧ i < x then none else q.peek i := by
  obtain ⟨⟨hcx, hxp⟩, hp, hc⟩ := consumeTo?_eq_some.mp h
  unfold peek
  rw [hp, hc]
  grind

end BoundedFifo
