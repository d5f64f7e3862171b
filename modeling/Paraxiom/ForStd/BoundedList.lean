import Mathlib

/-!
# Lists of bounded length

A list that carries the bound on its length, with the operations of a bounded vector:
conversion from a list, `push` at the end and `remove` at an index, each of which may fail.
-/

/-- A list of at most `bound` elements. -/
structure BoundedList (α : Type) (bound : Nat) where
  toList : List α
  length_le : toList.length ≤ bound
deriving DecidableEq

namespace BoundedList

variable {α : Type} {bound : Nat}

/-- The empty list. -/
def empty : BoundedList α bound := ⟨[], Nat.zero_le bound⟩

/-- Number of elements. -/
def length (l : BoundedList α bound) : Nat := l.toList.length

/-- Conversion from a list; none if it is too long. -/
def tryFrom (bound : Nat) (l : List α) : Option (BoundedList α bound) :=
  if h : l.length ≤ bound then some ⟨l, h⟩ else none

/-- Append an element; none if the list is full. -/
def tryPush (l : BoundedList α bound) (a : α) : Option (BoundedList α bound) :=
  tryFrom bound (l.toList ++ [a])

/-- Take out the element at an index; none if there is no such element. -/
def remove (l : BoundedList α bound) (i : Nat) : Option (α × BoundedList α bound) :=
  l.toList[i]?.map fun a =>
    (a, ⟨l.toList.eraseIdx i, Nat.le_trans (List.length_eraseIdx_le l.toList i) l.length_le⟩)

/-- The bound is not part of the value. -/
@[ext] theorem ext {l m : BoundedList α bound} (h : l.toList = m.toList) : l = m := by
  cases l; cases m; cases h; rfl

/-- A conversion that succeeds keeps the elements. -/
theorem tryFrom_eq_some {l : List α} {m : BoundedList α bound} :
    tryFrom bound l = some m ↔ m.toList = l := by
  unfold tryFrom
  split
  · rw [Option.some.injEq, BoundedList.ext_iff]
    exact eq_comm
  · rename_i hlong
    constructor
    · exact nofun
    · intro h
      exact absurd (h ▸ m.length_le) hlong

/-- A list within the bound converts. -/
theorem tryFrom_of_le {l : List α} (h : l.length ≤ bound) :
    tryFrom bound l = some ⟨l, h⟩ := dif_pos h

/-- A push that succeeds appends. -/
theorem tryPush_eq_some {l m : BoundedList α bound} {a : α} :
    l.tryPush a = some m ↔ m.toList = l.toList ++ [a] := tryFrom_eq_some

/-- A removal that succeeds gives back the element at the index, and the others in their order. -/
theorem remove_eq_some {l m : BoundedList α bound} {i : Nat} {a : α} :
    l.remove i = some (a, m) ↔ l.toList[i]? = some a ∧ m.toList = l.toList.eraseIdx i := by
  unfold remove
  cases l.toList[i]? with
  | none => simp
  | some b =>
    rw [Option.map_some, Option.some.injEq, Prod.mk.injEq, BoundedList.ext_iff, Option.some.injEq]
    exact and_congr_right fun _ => eq_comm

end BoundedList
