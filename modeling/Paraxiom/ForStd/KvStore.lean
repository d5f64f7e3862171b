import Mathlib

/-!
# Key-value stores and optimistic clients

A store is a partial function from keys to values. `writeAll` applies a list of updates
in order, so that a later update of a key wins.

A `Program` is a client that reads keys one after the other, each choice depending on the
values read so far, and ends with an output. `Program.rerun` is the fact optimistic
concurrency control rests on: against any store that still holds the values it read, a
program reads the same and produces the same output.
-/

namespace KvStore

variable {K V Out : Type}

/-! ## Updates -/

/-- Apply updates in list order; an update to `none` deletes the key. -/
def writeAll [DecidableEq K] (updates : List (K × Option V)) (store : K → Option V) :
    K → Option V :=
  updates.foldl (fun st u => Function.update st u.1 u.2) store

section WriteAll

variable [DecidableEq K]

@[simp] theorem writeAll_nil (store : K → Option V) : writeAll [] store = store := rfl

@[simp] theorem writeAll_cons (u : K × Option V) (updates : List (K × Option V))
    (store : K → Option V) :
    writeAll (u :: updates) store = writeAll updates (Function.update store u.1 u.2) := rfl

theorem writeAll_append (us vs : List (K × Option V)) (store : K → Option V) :
    writeAll (us ++ vs) store = writeAll vs (writeAll us store) :=
  List.foldl_append

/-- What a key holds after updates depends on what it held before alone. -/
theorem writeAll_congr_apply {updates : List (K × Option V)} {store store' : K → Option V} {k : K}
    (h : store k = store' k) : writeAll updates store k = writeAll updates store' k := by
  induction updates generalizing store store' with
  | nil => exact h
  | cons u us ih =>
    rw [writeAll_cons, writeAll_cons]
    refine ih ?_
    by_cases hk : k = u.1
    · rw [hk, Function.update_self, Function.update_self]
    · rw [Function.update_of_ne hk, Function.update_of_ne hk, h]

/-- A key that no update names keeps its value. -/
theorem writeAll_of_forall_ne {updates : List (K × Option V)} {k : K}
    (h : ∀ u ∈ updates, u.1 ≠ k) (store : K → Option V) :
    writeAll updates store k = store k := by
  induction updates generalizing store with
  | nil => rfl
  | cons u us ih =>
    rw [writeAll_cons, ih (fun u' hu' => h u' (List.mem_cons_of_mem _ hu')),
      Function.update_of_ne (h u List.mem_cons_self).symm]

theorem update_writeAll_comm {updates : List (K × Option V)} {k : K}
    (h : ∀ u ∈ updates, u.1 ≠ k) (v : Option V) (store : K → Option V) :
    Function.update (writeAll updates store) k v =
      writeAll updates (Function.update store k v) := by
  induction updates generalizing store with
  | nil => rfl
  | cons u us ih =>
    have hu : u.1 ≠ k := h u List.mem_cons_self
    rw [writeAll_cons, writeAll_cons, ih (fun u' hu' => h u' (List.mem_cons_of_mem _ hu')),
      Function.update_comm hu]

/-- Updates of different keys commute. -/
theorem writeAll_comm {us vs : List (K × Option V)} (h : ∀ u ∈ us, ∀ v ∈ vs, u.1 ≠ v.1)
    (store : K → Option V) :
    writeAll us (writeAll vs store) = writeAll vs (writeAll us store) := by
  induction us generalizing store with
  | nil => rfl
  | cons u us ih =>
    have hu : ∀ v ∈ vs, v.1 ≠ u.1 := fun v hv => (h u List.mem_cons_self v hv).symm
    rw [writeAll_cons, writeAll_cons, update_writeAll_comm hu,
      ih (fun u' hu' => h u' (List.mem_cons_of_mem _ hu'))]

/-- A key either holds its last update, or was never updated. -/
theorem writeAll_last_writer (updates : List (K × Option V)) (store : K → Option V) (k : K) :
    (∃ before v after, updates = before ++ (k, v) :: after ∧ (∀ u ∈ after, u.1 ≠ k) ∧
      writeAll updates store k = v) ∨
    ((∀ u ∈ updates, u.1 ≠ k) ∧ writeAll updates store k = store k) := by
  induction updates generalizing store with
  | nil => exact .inr ⟨nofun, rfl⟩
  | cons u us ih =>
    rw [writeAll_cons]
    rcases ih (Function.update store u.1 u.2) with ⟨before, v, after, rfl, hlast, hv⟩ | ⟨hnone, hv⟩
    · exact .inl ⟨u :: before, v, after, rfl, hlast, hv⟩
    · by_cases hu : u.1 = k
      · refine .inl ⟨[], u.2, us, by rw [← hu]; rfl, hnone, ?_⟩
        rw [hv, ← hu, Function.update_self]
      · refine .inr ⟨?_, by rw [hv, Function.update_of_ne (Ne.symm hu)]⟩
        intro u' hu'
        rcases List.mem_cons.mp hu' with rfl | hu'
        · exact hu
        · exact hnone u' hu'

/-- A key that is only ever deleted is gone. -/
theorem writeAll_of_removed {updates : List (K × Option V)} {k : K}
    (hnone : ∀ u ∈ updates, u.2 = none) (hmem : ∃ u ∈ updates, u.1 = k) (store : K → Option V) :
    writeAll updates store k = none := by
  rcases writeAll_last_writer updates store k with ⟨before, v, after, rfl, _, hv⟩ | ⟨hne, _⟩
  · rw [hv]
    exact hnone (k, v) (List.mem_append_right before List.mem_cons_self)
  · obtain ⟨u, hu, hk⟩ := hmem
    exact absurd hk (hne u hu)

end WriteAll

/-! ## Adaptive programs -/

/-- A client that reads keys of a store and ends with an output. -/
inductive Program (K V Out : Type) where
  | done (out : Out)
  | read (key : K) (next : Option V → Program K V Out)

namespace Program

/-- The output of a program run against a store. -/
def eval (store : K → Option V) : Program K V Out → Out
  | done out => out
  | read key next => eval store (next (store key))

/-- The keys a program reads from a store, with the values it finds there. -/
def reads (store : K → Option V) : Program K V Out → List (K × Option V)
  | done _ => []
  | read key next => (key, store key) :: reads store (next (store key))

/-- A store that holds every value the program read elsewhere gives the same run. -/
theorem rerun {p : Program K V Out} {store store' : K → Option V}
    (h : ∀ r ∈ p.reads store, store' r.1 = r.2) :
    p.reads store' = p.reads store ∧ p.eval store' = p.eval store := by
  induction p with
  | done out => exact ⟨rfl, rfl⟩
  | read key next ih =>
    -- the first value agrees, so both runs continue with the same program
    have hkey : store' key = store key := h (key, store key) List.mem_cons_self
    have hrest := ih (store key) fun r hr => h r (List.mem_cons_of_mem _ hr)
    constructor
    · rw [reads, reads, hkey, hrest.1]
    · rw [eval, eval, hkey, hrest.2]

end Program

end KvStore
