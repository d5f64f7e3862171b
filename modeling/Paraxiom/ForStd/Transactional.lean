import Mathlib

/-!
# Transactional state machines

A machine is a function `apply` from an operation and a state to either an error or an
answer and the next state. An operation that fails leaves the state as it was. `run`
executes a list of operations and `history` records what each of them met and did, so
that statements about runs can speak of the order of events.

`run_invariant` and `history_induction` are the two induction rules: what every step
preserves holds after every run. `forall_post_iff` is the rule for a property that some steps
do break.
-/

namespace Transactional

/-- One executed operation: the state it met, its answer, and the state it left. -/
structure Event (S O E A : Type) where
  pre : S
  op : O
  result : Except E A
  post : S

/-- The operation did not fail. -/
def Event.Succeeded {S O E A : Type} (e : Event S O E A) : Prop := ∃ a, e.result = .ok a

section Machine

variable {S O E A : Type} (apply : O → S → Except E (A × S))

/-- Execute one operation; a failing one changes nothing. -/
def step (s : S) (o : O) : S :=
  match apply o s with
  | .ok (_, s') => s'
  | .error _ => s

/-- The record of executing `o` in `s`. -/
def event (s : S) (o : O) : Event S O E A :=
  ⟨s, o, (apply o s).map Prod.fst, step apply s o⟩

/-- The state after a list of operations. -/
def run (s : S) (ops : List O) : S := ops.foldl (step apply) s

/-- The events of a run, oldest first. -/
def history : S → List O → List (Event S O E A)
  | _, [] => []
  | s, o :: ops => event apply s o :: history (step apply s o) ops

variable {apply}

/-! ## Single steps -/

/-- An operation that succeeds leads to its next state. -/
theorem step_of_ok {s s' : S} {o : O} {a : A} (h : apply o s = .ok (a, s')) :
    step apply s o = s' := by
  simp only [step, h]

/-- One that fails leads nowhere. -/
theorem step_of_error {s : S} {o : O} {e : E} (h : apply o s = .error e) :
    step apply s o = s := by
  simp only [step, h]

@[simp] theorem event_pre (s : S) (o : O) : (event apply s o).pre = s := rfl

@[simp] theorem event_op (s : S) (o : O) : (event apply s o).op = o := rfl

@[simp] theorem event_post (s : S) (o : O) : (event apply s o).post = step apply s o := rfl

/-- The event of an operation that succeeded. -/
theorem event_result_eq_ok {s : S} {o : O} {a : A} :
    (event apply s o).result = .ok a ↔ apply o s = .ok (a, step apply s o) := by
  unfold event step
  cases h : apply o s with
  | error e => simp [Except.map]
  | ok p => obtain ⟨b, s'⟩ := p; simp [Except.map]

/-- The event of one that failed. -/
theorem event_result_eq_error {s : S} {o : O} {e : E} :
    (event apply s o).result = .error e ↔ apply o s = .error e := by
  unfold event
  cases h : apply o s <;> simp [Except.map]

/-- What did not fail has succeeded. -/
theorem event_succeeded {s s' : S} {o : O} {a : A} (h : apply o s = .ok (a, s')) :
    (event apply s o).Succeeded :=
  ⟨a, event_result_eq_ok.mpr (by rw [h, step_of_ok h])⟩

/-! ## Runs -/

@[simp] theorem run_nil (s : S) : run apply s [] = s := rfl

@[simp] theorem run_cons (s : S) (o : O) (ops : List O) :
    run apply s (o :: ops) = run apply (step apply s o) ops := rfl

/-- A run goes on from where another has led. -/
theorem run_append (s : S) (ops ops' : List O) :
    run apply s (ops ++ ops') = run apply (run apply s ops) ops' :=
  List.foldl_append

/-- The last operation of a run. -/
theorem run_concat (s : S) (ops : List O) (o : O) :
    run apply s (ops ++ [o]) = step apply (run apply s ops) o := by
  rw [run_append]; rfl

@[simp] theorem history_nil (s : S) : history apply s [] = [] := rfl

@[simp] theorem history_cons (s : S) (o : O) (ops : List O) :
    history apply s (o :: ops) = event apply s o :: history apply (step apply s o) ops := rfl

/-- Events come in the order of the operations. -/
theorem history_append (s : S) (ops ops' : List O) :
    history apply s (ops ++ ops') =
      history apply s ops ++ history apply (run apply s ops) ops' := by
  induction ops generalizing s with
  | nil => rfl
  | cons o ops ih => simp [ih]

/-- The last event of a run. -/
theorem history_concat (s : S) (ops : List O) (o : O) :
    history apply s (ops ++ [o]) = history apply s ops ++ [event apply (run apply s ops) o] := by
  rw [history_append]; rfl

/-- Cutting a history at an event cuts the list of operations at the same place. -/
theorem history_split {s : S} {ops : List O} {past later : List (Event S O E A)}
    {e : Event S O E A} (h : history apply s ops = past ++ e :: later) :
    ∃ before o after, ops = before ++ o :: after ∧ past = history apply s before ∧
      e = event apply (run apply s before) o ∧
      later = history apply (step apply (run apply s before) o) after := by
  induction ops generalizing s past with
  | nil => simp at h
  | cons o ops ih =>
    -- the cut is at the first event, or later
    cases past with
    | nil =>
      simp only [history_cons, List.nil_append, List.cons.injEq] at h
      exact ⟨[], o, ops, rfl, rfl, h.1.symm, h.2.symm⟩
    | cons e' past =>
      simp only [history_cons, List.cons_append, List.cons.injEq] at h
      obtain ⟨rfl, h⟩ := h
      obtain ⟨before, o', after, rfl, rfl, rfl, rfl⟩ := ih h
      exact ⟨o :: before, o', after, rfl, rfl, rfl, rfl⟩

/-- An event met the state that the operations before it had led to. -/
theorem mem_history {s : S} {ops : List O} {e : Event S O E A} (h : e ∈ history apply s ops) :
    ∃ before o after, ops = before ++ o :: after ∧ e = event apply (run apply s before) o := by
  obtain ⟨past, later, hsplit⟩ := List.append_of_mem h
  obtain ⟨before, o, after, hops, _, he, _⟩ := history_split hsplit
  exact ⟨before, o, after, hops, he⟩

/-! ## Induction rules -/

/-- What every step preserves holds after every run. -/
theorem run_invariant {I : S → Prop} (hstep : ∀ s o, I s → I (step apply s o))
    {s : S} (h : I s) (ops : List O) : I (run apply s ops) := by
  induction ops generalizing s with
  | nil => exact h
  | cons o ops ih => exact ih (hstep s o h)

/-- What the steps of a run's own operations preserve holds after the run. -/
theorem run_invariant_of_mem {I : S → Prop} {s : S} {ops : List O}
    (hstep : ∀ s, ∀ o ∈ ops, I s → I (step apply s o)) (h : I s) : I (run apply s ops) :=
  List.foldlRecOn ops (step apply) h fun s hs o ho => hstep s o ho hs

/-- The induction rule for statements about a state and the events that led to it, in
    runs all of whose events are `G`. -/
theorem history_induction {P : List (Event S O E A) → S → Prop} {G : Event S O E A → Prop}
    {s₀ : S} (init : P [] s₀)
    (hstep : ∀ past s o, G (event apply s o) → P past s →
      P (past ++ [event apply s o]) (step apply s o))
    (ops : List O) (good : ∀ e ∈ history apply s₀ ops, G e) :
    P (history apply s₀ ops) (run apply s₀ ops) := by
  induction ops using List.reverseRecOn with
  | nil => exact init
  | append_singleton ops o ih =>
    rw [history_concat] at good ⊢
    rw [run_concat]
    refine hstep _ _ _ (good _ (by simp)) (ih fun e he => good e ?_)
    exact List.mem_append_left _ he

/-- A property of states that every step preserves holds in every state after one in
    which it held. -/
theorem forall_later {I : S → Prop} (hstep : ∀ s o, I s → I (step apply s o))
    {s : S} (h : I s) (ops : List O) : ∀ e ∈ history apply s ops, I e.pre ∧ I e.post := by
  intro e he
  obtain ⟨before, o, after, rfl, rfl⟩ := mem_history he
  have hpre := run_invariant hstep h before
  exact ⟨hpre, hstep _ o hpre⟩

/-- A property of states that only the events of `B` can break holds throughout a run if and
    only if it holds after each of these. -/
theorem forall_post_iff {I : S → Prop} {B : Event S O E A → Prop}
    (hstep : ∀ s o, ¬B (event apply s o) → I s → I (step apply s o))
    {s : S} (h : I s) (ops : List O) :
    (∀ e ∈ history apply s ops, I e.post) ↔ ∀ e ∈ history apply s ops, B e → I e.post := by
  constructor
  · exact fun hall e he _ => hall e he
  · intro hB
    induction ops generalizing s with
    | nil => exact fun e he => absurd he List.not_mem_nil
    | cons o ops ih =>
      rw [history_cons, List.forall_mem_cons] at hB ⊢
      have hpost : I (step apply s o) := by
        by_cases hbreak : B (event apply s o)
        · exact hB.1 hbreak
        · exact hstep s o hbreak h
      exact ⟨hpost, ih hpost hB.2⟩

end Machine

end Transactional
