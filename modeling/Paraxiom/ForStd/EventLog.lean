import Paraxiom.ForStd.Transactional

/-!
# Event logs

A component deposits events about what it stores, and whoever reads nothing but the events keeps
a picture of the storage. A `Reading` is what such an observer takes from an event: what it says
about the storage it met, and how it changes the picture. `replay` is the observer's
bookkeeping. `Tells` says that a log leads the observer from what was stored before to what is
stored after, and that no event says anything false about what it met.

`Tells.append` composes logs and `recorded_run` is the rule for runs: it is enough that every
step that succeeds records what it does.
-/

namespace EventLog

variable {E T : Type}

/-- How events `E` are read by an observer whose picture of the storage is a `T`. -/
structure Reading (E T : Type) where
  met : E → T → Prop
  note : E → T → T

variable (r : Reading E T)

/-- The picture of an observer who starts from a given one and reads a log. -/
def replay (t : T) (log : List E) : T := log.foldl (fun t e => r.note e t) t

/-- The log leads from `t` to `t'`, and each of its events met what it says, in what the events
    before it had left. -/
structure Tells (t : T) (log : List E) (t' : T) : Prop where
  met : ∀ before e later, log = before ++ e :: later → r.met e (replay r t before)
  replayed : replay r t log = t'

/-- The events that were added to a log tell how `t` became `t'`. -/
def Recorded (log : List E) (t : T) (log' : List E) (t' : T) : Prop :=
  ∃ added, log' = log ++ added ∧ Tells r t added t'

variable {r} {t t' t'' : T} {log log' log'' : List E}

/-! ## Composition -/

/-- Nothing happened, and nothing was said. -/
theorem Tells.nil : Tells r t [] t := ⟨fun before e later h => absurd h (by simp), rfl⟩

/-- One event. -/
theorem Tells.singleton {e : E} (h : r.met e t) : Tells r t [e] (r.note e t) := by
  refine ⟨fun before e' later heq => ?_, rfl⟩
  -- nothing comes before the only event
  rw [eq_comm, List.append_eq_singleton_iff] at heq
  rcases heq with ⟨rfl, heq⟩ | ⟨_, heq⟩
  · cases heq
    exact h
  · cases heq

/-- A log goes on from where another has led. -/
theorem Tells.append (h : Tells r t log t') (h' : Tells r t' log' t'') :
    Tells r t (log ++ log') t'' := by
  have hreplay : ∀ l, replay r t (log ++ l) = replay r t' l := fun l => by
    rw [← h.replayed]
    exact List.foldl_append
  refine ⟨fun before e later hsplit => ?_, (hreplay log').trans h'.replayed⟩
  -- the event is in the first log or in the second
  rcases List.append_eq_append_iff.mp hsplit with ⟨front, rfl, hlog'⟩ | ⟨back, rfl, hback⟩
  · rw [hreplay]
    exact h'.met front e later hlog'
  · cases back with
    | nil =>
      rw [List.append_nil] at h
      rw [h.replayed]
      exact h'.met [] e later hback.symm
    | cons e' back =>
      obtain ⟨rfl, _⟩ := List.cons.inj hback
      exact h.met before e back rfl

/-- A step without an event leaves the picture. -/
theorem Recorded.refl (r : Reading E T) (log : List E) (t : T) : Recorded r log t log t :=
  ⟨[], (List.append_nil log).symm, .nil⟩

/-- A step with one event. -/
theorem Recorded.concat {e : E} (h : r.met e t) : Recorded r log t (log ++ [e]) (r.note e t) :=
  ⟨[e], rfl, .singleton h⟩

/-- What two steps record, one after the other. -/
theorem Recorded.trans (h : Recorded r log t log' t') (h' : Recorded r log' t' log'' t'') :
    Recorded r log t log'' t'' := by
  obtain ⟨added, rfl, h⟩ := h
  obtain ⟨added', rfl, h'⟩ := h'
  exact ⟨added ++ added', List.append_assoc .., h.append h'⟩

/-! ## Runs -/

/-- What every step that succeeds records, a run records. -/
theorem recorded_run {S O F A : Type} {apply : O → S → Except F (A × S)} (log : S → List E)
    (view : S → T)
    (hstep : ∀ s o a s', apply o s = .ok (a, s') → Recorded r (log s) (view s) (log s') (view s'))
    (s : S) (ops : List O) :
    Recorded r (log s) (view s) (log (Transactional.run apply s ops))
      (view (Transactional.run apply s ops)) := by
  refine Transactional.run_invariant
    (I := fun s' => Recorded r (log s) (view s) (log s') (view s')) (fun s' o h => ?_)
    (.refl r _ _) ops
  cases hres : apply o s' with
  | error e => rwa [Transactional.step_of_error hres]
  | ok p =>
    rw [Transactional.step_of_ok hres]
    exact h.trans (hstep s' o p.1 p.2 hres)

end EventLog
