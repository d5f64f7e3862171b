import Paraxiom.ForStd.Transactional

/-!
# Unwinding: what a run looks like to one observer

Two machines over the same operations, a predicate that says which operations an observer
sees, and a relation `Agree` between their states that says what it can tell. If the
operations it does not see keep the agreement, and those it sees give equal results and
agreeing states, then two runs with the same seen operations look the same to it.

`Related` compares two fallible computations: both return, with related values, or both
fail alike. Its rules follow the structure of the computations.
-/

/-! ## Related computations -/

namespace Except

variable {ε α β γ δ : Type}

/-- Both computations return, with values in the relation, or both fail with the same
    error. -/
inductive Related (rel : α → β → Prop) : Except ε α → Except ε β → Prop where
  | ok {a : α} {b : β} (h : rel a b) : Related rel (.ok a) (.ok b)
  | error (e : ε) : Related rel (.error e) (.error e)

namespace Related

variable {rel : α → β → Prop} {x : Except ε α} {y : Except ε β}

theorem bind {rel' : γ → δ → Prop} {f : α → Except ε γ} {g : β → Except ε δ}
    (h : Related rel x y) (hf : ∀ a b, rel a b → Related rel' (f a) (g b)) :
    Related rel' (x >>= f) (y >>= g) := by
  cases h with
  | ok h => exact hf _ _ h
  | error e => exact .error e

/-- Starting both with the same computation. -/
theorem bind_of_ok {rel' : γ → δ → Prop} {f : α → Except ε γ} {g : α → Except ε δ}
    (hf : ∀ a, x = .ok a → Related rel' (f a) (g a)) : Related rel' (x >>= f) (x >>= g) := by
  cases x with
  | ok a => exact hf a rfl
  | error e => exact .error e

theorem bind_same {rel' : γ → δ → Prop} {f : α → Except ε γ} {g : α → Except ε δ}
    (hf : ∀ a, Related rel' (f a) (g a)) : Related rel' (x >>= f) (x >>= g) :=
  bind_of_ok fun a _ => hf a

/-- Loops whose bodies keep a relation. -/
theorem foldlM {ι : Type} {f : α → ι → Except ε α} {g : β → ι → Except ε β} {l : List ι}
    (h : ∀ a b i, rel a b → Related rel (f a i) (g b i)) {a : α} {b : β} (hab : rel a b) :
    Related rel (l.foldlM f a) (l.foldlM g b) := by
  induction l generalizing a b with
  | nil => exact .ok hab
  | cons i l ih =>
    rw [List.foldlM_cons, List.foldlM_cons]
    exact (h a b i hab).bind fun a' b' h' => ih h'

/-- The two ways in which computations are related. -/
theorem eq_ok_or_eq_error (h : Related rel x y) :
    (∃ a b, x = .ok a ∧ y = .ok b ∧ rel a b) ∨ ∃ e, x = .error e ∧ y = .error e := by
  cases h with
  | ok h => exact .inl ⟨_, _, rfl, rfl, h⟩
  | error e => exact .inr ⟨e, rfl, rfl⟩

end Related

end Except

/-! ## Two runs of a machine -/

namespace Transactional

open Except

variable {S₁ S₂ O E A : Type} {apply₁ : O → S₁ → Except E (A × S₁)}
  {apply₂ : O → S₂ → Except E (A × S₂)}

/-- The answers of related executions are equal, and their next states agree. -/
def SameStep (agree : S₁ → S₂ → Prop) : A × S₁ → A × S₂ → Prop :=
  fun p q => p.1 = q.1 ∧ agree p.2 q.2

variable {agree : S₁ → S₂ → Prop}

/-- A step from agreeing states whose execution is related has the same result and leads to
    agreeing states. -/
theorem step_of_related {s₁ : S₁} {s₂ : S₂} {o : O} (h : agree s₁ s₂)
    (hrel : Related (SameStep agree) (apply₁ o s₁) (apply₂ o s₂)) :
    (event apply₁ s₁ o).result = (event apply₂ s₂ o).result ∧
      agree (step apply₁ s₁ o) (step apply₂ s₂ o) := by
  unfold event step
  cases h₁ : apply₁ o s₁ <;> cases h₂ : apply₂ o s₂ <;> rw [h₁, h₂] at hrel <;> cases hrel
  · exact ⟨rfl, h⟩
  · rename_i hsame
    exact ⟨congrArg Except.ok hsame.1, hsame.2⟩

/-- The events that an observer sees. -/
def seenEvents {S : Type} (visible : O → Bool) (past : List (Event S O E A)) :
    List (Event S O E A) :=
  past.filter fun e => visible e.op

theorem seenEvents_cons_of_hidden {S : Type} {apply : O → S → Except E (A × S)}
    {visible : O → Bool} {o : O} (h : visible o = false) (s : S) (ops : List O) :
    seenEvents visible (history apply s (o :: ops)) =
      seenEvents visible (history apply (step apply s o) ops) := by
  rw [history_cons, seenEvents,
    List.filter_cons_of_neg (by rw [event_op, h]; exact Bool.false_ne_true)]
  rfl

theorem seenEvents_cons_of_visible {S : Type} {apply : O → S → Except E (A × S)}
    {visible : O → Bool} {o : O} (h : visible o = true) (s : S) (ops : List O) :
    seenEvents visible (history apply s (o :: ops)) =
      event apply s o :: seenEvents visible (history apply (step apply s o) ops) := by
  rw [history_cons, seenEvents, List.filter_cons_of_pos (by rwa [event_op])]
  rfl

variable {visible : O → Bool}

/-- What an observer sees of two runs with the same seen operations: the same results, and
    agreeing states at the end. `Hidden₁` and `Hidden₂` are what is known of the events it
    does not see, `Paired` what is known of two events it sees in the same place. -/
theorem unwinding (agree : S₁ → S₂ → Prop) (Hidden₁ : Event S₁ O E A → Prop)
    (Hidden₂ : Event S₂ O E A → Prop) (Paired : Event S₁ O E A → Event S₂ O E A → Prop)
    (hidden₁ : ∀ s₁ s₂ o, visible o = false → Hidden₁ (event apply₁ s₁ o) → agree s₁ s₂ →
      agree (step apply₁ s₁ o) s₂)
    (hidden₂ : ∀ s₁ s₂ o, visible o = false → Hidden₂ (event apply₂ s₂ o) → agree s₁ s₂ →
      agree s₁ (step apply₂ s₂ o))
    (seen : ∀ s₁ s₂ o, visible o = true → Paired (event apply₁ s₁ o) (event apply₂ s₂ o) →
      agree s₁ s₂ → Related (SameStep agree) (apply₁ o s₁) (apply₂ o s₂))
    {s₁ : S₁} {s₂ : S₂} {ops₁ ops₂ : List O} (hagree : agree s₁ s₂)
    (hops : ops₁.filter visible = ops₂.filter visible)
    (h₁ : ∀ e ∈ history apply₁ s₁ ops₁, visible e.op = false → Hidden₁ e)
    (h₂ : ∀ e ∈ history apply₂ s₂ ops₂, visible e.op = false → Hidden₂ e)
    (hpaired : ∀ p ∈ (seenEvents visible (history apply₁ s₁ ops₁)).zip
      (seenEvents visible (history apply₂ s₂ ops₂)), Paired p.1 p.2) :
    (seenEvents visible (history apply₁ s₁ ops₁)).map Event.result =
        (seenEvents visible (history apply₂ s₂ ops₂)).map Event.result ∧
      agree (run apply₁ s₁ ops₁) (run apply₂ s₂ ops₂) := by
  induction ops₁ generalizing s₁ s₂ ops₂ with
  | nil =>
    -- everything left in the second run is hidden
    induction ops₂ generalizing s₂ with
    | nil => exact ⟨rfl, hagree⟩
    | cons o ops₂ ih =>
      cases ho : visible o with
      | true => rw [List.filter_cons_of_pos ho] at hops; cases hops
      | false =>
        rw [List.filter_cons_of_neg (by rw [ho]; exact Bool.false_ne_true)] at hops
        rw [seenEvents_cons_of_hidden ho] at hpaired ⊢
        exact ih (hidden₂ _ _ _ ho (h₂ _ List.mem_cons_self ho) hagree) hops
          (fun e he => h₂ e (List.mem_cons_of_mem _ he)) hpaired
  | cons o ops₁ ih₁ =>
    cases ho : visible o with
    | false =>
      rw [List.filter_cons_of_neg (by rw [ho]; exact Bool.false_ne_true)] at hops
      rw [seenEvents_cons_of_hidden ho] at hpaired ⊢
      exact ih₁ (hidden₁ _ _ _ ho (h₁ _ List.mem_cons_self ho) hagree) hops
        (fun e he => h₁ e (List.mem_cons_of_mem _ he)) h₂ hpaired
    | true =>
      -- the second run hides operations until it comes to this one
      rw [List.filter_cons_of_pos ho] at hops
      induction ops₂ generalizing s₂ with
      | nil => cases hops
      | cons o' ops₂ ih₂ =>
        cases ho' : visible o' with
        | false =>
          rw [List.filter_cons_of_neg (by rw [ho']; exact Bool.false_ne_true)] at hops
          rw [seenEvents_cons_of_hidden ho'] at hpaired ⊢
          exact ih₂ (hidden₂ _ _ _ ho' (h₂ _ List.mem_cons_self ho') hagree) hops
            (fun e he => h₂ e (List.mem_cons_of_mem _ he)) hpaired
        | true =>
          -- the operations seen in the same place are the same
          rw [List.filter_cons_of_pos ho'] at hops
          obtain ⟨rfl, hrest⟩ := List.cons.inj hops
          rw [seenEvents_cons_of_visible ho, seenEvents_cons_of_visible ho] at hpaired ⊢
          rw [List.zip_cons_cons, List.forall_mem_cons] at hpaired
          obtain ⟨hhead, htail⟩ := hpaired
          obtain ⟨hresult, hnext⟩ := step_of_related hagree (seen _ _ _ ho hhead hagree)
          obtain ⟨hresults, hend⟩ := ih₁ hnext hrest
            (fun e he => h₁ e (List.mem_cons_of_mem _ he))
            (fun e he => h₂ e (List.mem_cons_of_mem _ he)) htail
          refine ⟨?_, hend⟩
          rw [List.map_cons, List.map_cons, hresult, hresults]

/-- Lists that look the same through `f` and `g` look the same place by place. -/
theorem forall_mem_zip_of_map_eq {α β γ : Type} {f : α → γ} {g : β → γ} {as : List α}
    {bs : List β} (h : as.map f = bs.map g) : ∀ p ∈ as.zip bs, f p.1 = g p.2 := by
  induction as generalizing bs with
  | nil => simp
  | cons a as ih =>
    cases bs with
    | nil => simp
    | cons b bs =>
      obtain ⟨hhead, htail⟩ := List.cons.inj h
      rw [List.zip_cons_cons, List.forall_mem_cons]
      exact ⟨hhead, ih htail⟩

/-! ## Leaving out what is hidden -/

section Purge

variable {S : Type} {apply : O → S → Except E (A × S)} {agree : S → S → Prop}

theorem seenEvents_filter (s : S) (ops : List O) :
    seenEvents visible (history apply s (ops.filter visible)) =
      history apply s (ops.filter visible) := by
  refine List.filter_eq_self.mpr fun e he => ?_
  obtain ⟨before, o, after, hops, rfl⟩ := mem_history he
  have hmem : o ∈ ops.filter visible := by rw [hops]; simp
  exact (List.mem_filter.mp hmem).2

/-- A run in which no hidden operation does anything that the observer can tell looks to it
    like the run of the seen operations alone. -/
theorem purge (Idle : Event S O E A → Prop) (hrefl : ∀ s, agree s s)
    (hidden : ∀ s₁ s₂ o, visible o = false → Idle (event apply s₁ o) → agree s₁ s₂ →
      agree (step apply s₁ o) s₂)
    (seen : ∀ s₁ s₂ o, visible o = true → agree s₁ s₂ →
      Related (SameStep agree) (apply o s₁) (apply o s₂))
    (s : S) (ops : List O)
    (hidle : ∀ e ∈ history apply s ops, visible e.op = false → Idle e) :
    (seenEvents visible (history apply s ops)).map Event.result =
        (history apply s (ops.filter visible)).map Event.result ∧
      agree (run apply s ops) (run apply s (ops.filter visible)) := by
  have hops : ops.filter visible = (ops.filter visible).filter visible := by
    rw [List.filter_filter]; simp
  -- nothing is hidden in the second run
  have hnone : ∀ e ∈ history apply s (ops.filter visible), visible e.op = false → False := by
    intro e he ho
    rw [← seenEvents_filter] at he
    rw [(List.mem_filter.mp he).2] at ho
    cases ho
  have h := unwinding agree Idle (fun _ => False) (fun _ _ => True) hidden
    (fun _ _ _ _ hfalse _ => hfalse.elim) (fun s₁ s₂ o ho _ => seen s₁ s₂ o ho) (hrefl s) hops
    hidle hnone (fun _ _ => trivial)
  rwa [seenEvents_filter] at h

end Purge

end Transactional
