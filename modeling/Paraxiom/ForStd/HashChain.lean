import Mathlib

/-!
# Hash chains

A chain of messages is represented by one hash, its head: the head of a longer chain is the
hash of an input that is made of the head before and the message. The head commits to all
messages, and to their order, as far as the hash does.

No hash is free of collisions, so that "the heads agree, hence the messages agree, or there is
a collision" would say nothing. What is shown is that the messages agree or that the
computation of the two heads has itself hashed two different inputs to the same value, or an
input to the start of the chain.

## Key results

- `eq_or_collision`: chains from one start with one head
- `eq_or_collision_of_map_eq`: messages with the same hashes
-/

namespace HashChain

variable {I D M : Type}

/-- Different inputs, one of each list, with the same hash. -/
def Collision (hash : I → D) (xs ys : List I) : Prop :=
  ∃ x ∈ xs, ∃ y ∈ ys, x ≠ y ∧ hash x = hash y

/-- A collision among some inputs is one among more. -/
theorem Collision.mono {hash : I → D} {xs xs' ys ys' : List I} (hxs : xs ⊆ xs') (hys : ys ⊆ ys')
    (h : Collision hash xs ys) : Collision hash xs' ys' := by
  obtain ⟨x, hx, y, hy, hne, heq⟩ := h
  exact ⟨x, hxs hx, y, hys hy, hne, heq⟩

/-- Lists with the same hashes, one by one. -/
theorem eq_or_collision_of_map_eq {hash : I → D} {xs ys : List I}
    (h : xs.map hash = ys.map hash) : xs = ys ∨ Collision hash xs ys := by
  induction xs generalizing ys with
  | nil => exact .inl (List.map_eq_nil_iff.mp h.symm).symm
  | cons x xs ih =>
    obtain ⟨y, ys, rfl, hy, hys⟩ := List.map_eq_cons_iff.mp h.symm
    by_cases hxy : x = y
    · subst hxy
      rcases ih hys.symm with rfl | hcollision
      · exact .inl rfl
      · exact .inr (hcollision.mono (List.subset_cons_self ..) (List.subset_cons_self ..))
    · -- the first two messages that differ
      exact .inr ⟨x, List.mem_cons_self, y, List.mem_cons_self, hxy, hy.symm⟩

section Chain

variable (hash : I → D) (input : D → M → I)

/-- The head after one more message. -/
def extend (head : D) (m : M) : D := hash (input head m)

/-- The head after the messages. -/
def head (start : D) (ms : List M) : D := ms.foldl (extend hash input) start

/-- What is hashed on the way to the head. -/
def inputs (start : D) : List M → List I
  | [] => []
  | m :: ms => input start m :: inputs (extend hash input start m) ms

variable {hash input}

/-- A chain goes on from the head of what was there. -/
theorem head_append (start : D) (ms ms' : List M) :
    head hash input start (ms ++ ms') = head hash input (head hash input start ms) ms' :=
  List.foldl_append

/-- The head is the hash of the head before with the last message. -/
theorem head_concat (start : D) (ms : List M) (m : M) :
    head hash input start (ms ++ [m]) = hash (input (head hash input start ms) m) := by
  rw [head_append]
  rfl

/-- The last message adds one input. -/
theorem inputs_concat (start : D) (ms : List M) (m : M) :
    inputs hash input start (ms ++ [m]) =
      inputs hash input start ms ++ [input (head hash input start ms) m] := by
  induction ms generalizing start with
  | nil => rfl
  | cons m' ms ih =>
    rw [List.cons_append, inputs, inputs, ih]
    rfl

/-- The last input of a chain that is not empty is hashed to its head. -/
theorem exists_input_of_ne_nil {start : D} {ms : List M} (h : ms ≠ []) :
    ∃ x ∈ inputs hash input start ms, hash x = head hash input start ms := by
  obtain ⟨front, m, rfl⟩ : ∃ front m, ms = front ++ [m] :=
    ⟨ms.dropLast, ms.getLast h, (List.dropLast_append_getLast h).symm⟩
  rw [inputs_concat, head_concat]
  exact ⟨_, List.mem_append_right _ (List.mem_singleton_self _), rfl⟩

/-- Two chains from one start that end in one head have the same messages, unless the hash
    failed on what was hashed for them. Induction from the ends of the chains. -/
theorem eq_or_collision
    (hinput : ∀ d m d' m', input d m = input d' m' → d = d' ∧ m = m') {start : D} {ms ms' : List M}
    (h : head hash input start ms = head hash input start ms') :
    ms = ms' ∨ Collision hash (inputs hash input start ms) (inputs hash input start ms') ∨
      ∃ x ∈ inputs hash input start ms ++ inputs hash input start ms', hash x = start := by
  induction ms using List.reverseRecOn generalizing ms' with
  | nil =>
    -- a chain that is not empty has come back to the start
    by_cases hnil : ms' = []
    · exact .inl hnil.symm
    · obtain ⟨x, hx, heq⟩ : ∃ x ∈ inputs hash input start ms', hash x = _ :=
        exists_input_of_ne_nil hnil
      exact .inr (.inr ⟨x, List.mem_append_right _ hx, heq.trans h.symm⟩)
  | append_singleton ms m ih =>
    induction ms' using List.reverseRecOn with
    | nil =>
      obtain ⟨x, hx, heq⟩ : ∃ x ∈ inputs hash input start (ms ++ [m]), hash x = _ :=
        exists_input_of_ne_nil (List.append_ne_nil_of_right_ne_nil ms (List.cons_ne_nil m []))
      exact .inr (.inr ⟨x, List.mem_append_left _ hx, heq.trans h⟩)
    | append_singleton ms' m' _ =>
      rw [head_concat, head_concat] at h
      rw [inputs_concat, inputs_concat]
      by_cases heq : input (head hash input start ms) m = input (head hash input start ms') m'
      · -- the last messages agree, and the heads before them
        obtain ⟨hhead, rfl⟩ := hinput _ _ _ _ heq
        rcases ih hhead with rfl | hcollision | ⟨x, hx, hstart⟩
        · exact .inl rfl
        · exact .inr (.inl (hcollision.mono (List.subset_append_left ..)
            (List.subset_append_left ..)))
        · refine .inr (.inr ⟨x, ?_, hstart⟩)
          rcases List.mem_append.mp hx with hx | hx
          · exact List.mem_append_left _ (List.mem_append_left _ hx)
          · exact List.mem_append_right _ (List.mem_append_left _ hx)
      · -- the last inputs differ and have one hash
        exact .inr (.inl ⟨_, List.mem_append_right _ (List.mem_singleton_self _), _,
          List.mem_append_right _ (List.mem_singleton_self _), heq, h⟩)

end Chain

end HashChain
