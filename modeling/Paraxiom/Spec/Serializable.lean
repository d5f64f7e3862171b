import Paraxiom.ForStd.Transactional
import Paraxiom.Spec.AnchorSteps

/-!
# Accepted rollups are serializable

A client reads the store of a name at some snapshot, decides what to do, and submits a
rollup whose conditions repeat every value it read. However stale the snapshot, a rollup
that is accepted did what the client's program would have done if it had been run on the
spot: the conditions are all tested before the first update.

`serialRun` runs the programs of the accepted submissions one after the other, each
directly against the state it meets; `run_eq_serialRun` says that this reaches the state
that the optimistic run reached.
-/

namespace Paraxiom.Anchor

open Scale KvStore Transactional

/-- What a client program ends with. -/
structure Effects where
  updates : List (KeyBytes × Option ValueBytes)
  actions : List ActionBytes

variable (AccountId : Type)

/-- A client program together with the snapshot it ran against and the conditions it was
    submitted with. The snapshot may be any store, that of any earlier state included;
    there is a condition for every value read. -/
structure Submission where
  origin : Origin AccountId
  name : H256
  program : Program KeyBytes ValueBytes Effects
  snapshot : Store
  conds : List Cond
  covers : ∀ r ∈ program.reads snapshot, Cond.eq r.1 r.2 ∈ conds
  nonce : U128

variable {AccountId} in
/-- The canonical submission of a program: its conditions are its reads. -/
def Submission.ofProgram (origin : Origin AccountId) (name : H256)
    (program : Program KeyBytes ValueBytes Effects) (snapshot : Store) (nonce : U128) :
    Submission AccountId where
  origin := origin
  name := name
  program := program
  snapshot := snapshot
  conds := (program.reads snapshot).map fun r => .eq r.1 r.2
  covers _ hr := List.mem_map_of_mem hr
  nonce := nonce

/-- A step of a run in which every rollup comes from a client. -/
inductive ClientStep where
  | claimName (origin : Origin AccountId) (name : H256)
  | pushMessage (name : H256) (data : ValueBytes)
  | submit (sub : Submission AccountId)

variable {AccountId} {R : Type} [DecidableEq AccountId]

/-- The transaction that is submitted: computed at the snapshot. -/
def Submission.tx (sub : Submission AccountId) : RollupTx :=
  ⟨sub.conds, (sub.program.eval sub.snapshot).actions, (sub.program.eval sub.snapshot).updates⟩

/-- The program run directly against the store of its name, with nothing to check. -/
def Submission.direct (sub : Submission AccountId) (s : State AccountId) : RollupTx :=
  ⟨[], (sub.program.eval (s.states sub.name)).actions,
    (sub.program.eval (s.states sub.name)).updates⟩

/-- The operation that a step submits. -/
def ClientStep.op : ClientStep AccountId → Op AccountId
  | claimName origin name => .claimName origin name
  | pushMessage name data => .pushMessage name data
  | submit sub => .rollup sub.origin sub.name sub.tx sub.nonce

/-- The operation that a step amounts to when its program runs on the spot. -/
def ClientStep.directOp (s : State AccountId) : ClientStep AccountId → Op AccountId
  | claimName origin name => .claimName origin name
  | pushMessage name data => .pushMessage name data
  | submit sub => .rollup sub.origin sub.name (sub.direct s) sub.nonce

variable (cfg : Config) (onResponse : OnResponse AccountId R)

/-- The steps of a run that were accepted. -/
def accepted : State AccountId × R → List (ClientStep AccountId) → List (ClientStep AccountId)
  | _, [] => []
  | s, c :: cs =>
    match apply cfg onResponse c.op s with
    | .ok _ => c :: accepted (step (apply cfg onResponse) s c.op) cs
    | .error _ => accepted s cs

/-- Run the steps one after the other, each program against the state it meets. -/
def serialRun (s : State AccountId × R) (cs : List (ClientStep AccountId)) :
    State AccountId × R :=
  cs.foldl (fun s c => step (apply cfg onResponse) s (c.directOp s.1)) s

variable {cfg onResponse}

omit [DecidableEq AccountId] in
/-- Conditions that hold make the program rerun as it ran at the snapshot. -/
theorem Submission.rerun_of_conds {sub : Submission AccountId} {store : Store}
    (h : ∀ c ∈ sub.tx.conds, c.Holds store) :
    sub.program.reads store = sub.program.reads sub.snapshot ∧
      sub.program.eval store = sub.program.eval sub.snapshot :=
  Program.rerun fun r hr => h (.eq r.1 r.2) (sub.covers r hr)

/-- An accepted submission reran its program. -/
theorem rerun_of_rollup_ok {sub : Submission AccountId} {s s' : State AccountId × R}
    (h : rollup cfg onResponse sub.origin sub.name sub.tx sub.nonce s = .ok s') :
    sub.program.reads (s.1.states sub.name) = sub.program.reads sub.snapshot ∧
      sub.program.eval (s.1.states sub.name) = sub.program.eval sub.snapshot := by
  obtain ⟨_, _, _, hconds, _⟩ := rollup_eq_ok.mp h
  exact sub.rerun_of_conds hconds

/-- An accepted submission is the direct run of its program. -/
theorem rollup_direct_of_ok {sub : Submission AccountId} {s s' : State AccountId × R}
    (h : rollup cfg onResponse sub.origin sub.name sub.tx sub.nonce s = .ok s') :
    rollup cfg onResponse sub.origin sub.name (sub.direct s.1) sub.nonce s = .ok s' := by
  have heval := (rerun_of_rollup_ok h).2
  obtain ⟨who, horigin, howner, _, s₁, hloop, hs'⟩ := rollup_eq_ok.mp h
  refine rollup_eq_ok.mpr ⟨who, horigin, howner, nofun, s₁, ?_, hs'⟩
  rw [Submission.direct, heval]
  exact hloop

/-- A step that is accepted leaves the state its direct run leaves. -/
theorem step_directOp_of_ok {c : ClientStep AccountId} {s : State AccountId × R}
    {r : Answer × (State AccountId × R)} (h : apply cfg onResponse c.op s = .ok r) :
    step (apply cfg onResponse) s (c.directOp s.1) = step (apply cfg onResponse) s c.op := by
  cases c with
  | claimName origin name => rfl
  | pushMessage name data => rfl
  | submit sub =>
    obtain ⟨s', hok, hr⟩ := Exec.bind_eq_ok.mp h
    have hdirect : apply cfg onResponse (ClientStep.directOp s.1 (.submit sub)) s = .ok r :=
      Exec.bind_eq_ok.mpr ⟨s', rollup_direct_of_ok hok, hr⟩
    rw [step_of_ok hdirect, step_of_ok h]

/-- The optimistic run ends where the serial run of its accepted steps ends. -/
theorem run_eq_serialRun (s : State AccountId × R) (cs : List (ClientStep AccountId)) :
    run (apply cfg onResponse) s (cs.map ClientStep.op) =
      serialRun cfg onResponse s (accepted cfg onResponse s cs) := by
  induction cs generalizing s with
  | nil => rfl
  | cons c cs ih =>
    rw [List.map_cons, run_cons, ih, accepted]
    cases h : apply cfg onResponse c.op s with
    | error f => rw [step_of_error h]
    -- an accepted step is replaced by its direct run
    | ok r => exact congrArg (serialRun cfg onResponse · _) (step_directOp_of_ok h).symm

/-- Rollups are isolated and atomic. Take any run of claims, pushes and client
    submissions, and any further submission. If it is accepted, its program run against the
    state at hand reads the same values and ends with the same effects, and the store of
    its name is the updates in list order followed by the queue moves; if it is not, the
    state is unchanged. And the whole run ends where the serial run of its accepted
    programs ends. -/
theorem accepted_rollups_serializable (cfg : Config) (onResponse : OnResponse AccountId R)
    (s : State AccountId × R) (cs : List (ClientStep AccountId)) :
    let s₁ := run (apply cfg onResponse) s (cs.map ClientStep.op)
    (∀ sub : Submission AccountId,
      (∀ s₂, rollup cfg onResponse sub.origin sub.name sub.tx sub.nonce s₁ = .ok s₂ →
        sub.program.reads (s₁.1.states sub.name) = sub.program.reads sub.snapshot ∧
        sub.program.eval (s₁.1.states sub.name) = sub.program.eval sub.snapshot ∧
        s₂.1.states sub.name =
          queueMoves cfg (sub.program.eval (s₁.1.states sub.name)).actions
            (writeAll (sub.program.eval (s₁.1.states sub.name)).updates (s₁.1.states sub.name))) ∧
      (∀ f, rollup cfg onResponse sub.origin sub.name sub.tx sub.nonce s₁ = .error f →
        step (apply cfg onResponse) s₁ (ClientStep.submit sub).op = s₁)) ∧
    s₁ = serialRun cfg onResponse s (accepted cfg onResponse s cs) := by
  intro s₁
  refine ⟨fun sub => ⟨fun s₂ h => ?_, fun f h => ?_⟩, run_eq_serialRun s cs⟩
  · -- what was written is what the program decided at the snapshot, and decides here
    obtain ⟨hreads, heval⟩ := rerun_of_rollup_ok h
    refine ⟨hreads, heval, ?_⟩
    rw [heval]
    exact (rollup_effect h).1
  · refine step_of_error (e := f) ?_
    simp only [ClientStep.op, apply, h]
    rfl

/-- The key of one byte. -/
private def keyOf (byte : UInt8) : KeyBytes := ⟨[byte], by simp⟩

/-- Reads the first key and writes what it finds there under the second, or removes that. -/
def copyProgram (source target : KeyBytes) : Program KeyBytes ValueBytes Effects :=
  .read source fun value => .done ⟨[(target, value)], []⟩

/-- Writes to two keys without reading any. -/
def writeProgram : Program KeyBytes ValueBytes Effects :=
  .done ⟨[(keyOf 0, some (.truncateFrom _ [7])), (keyOf 2, some (.truncateFrom _ [8]))], []⟩

/-- A claim, the writes of a client, and a message for the name. -/
def clientSteps : List (ClientStep UInt32) :=
  [.claimName (.signed 0) sampleName,
    .submit (.ofProgram (.signed 0) sampleName writeProgram (fun _ => none) 0),
    .pushMessage sampleName (.truncateFrom _ [9])]

/-- A client that has read the empty store of genesis. -/
def staleSubmission (source : UInt8) : Submission UInt32 :=
  .ofProgram (.signed 0) sampleName (copyProgram (keyOf source) (keyOf 2)) (fun _ => none) 1

/-- Of two submissions computed at a stale snapshot, one is accepted, for nothing has been
    written to the key it read, and removes an entry; the other is refused. -/
theorem accepted_rollups_serializable_sample :
    let s := run (apply sampleConfig OnResponse.unit) (genesis, ()) (clientSteps.map ClientStep.op)
    s.1.states sampleName ≠ (staleSubmission 1).snapshot ∧
      (∃ s₂, rollup sampleConfig OnResponse.unit (.signed 0) sampleName (staleSubmission 1).tx 1 s =
          .ok s₂ ∧
        s₂.1.states sampleName = Function.update (s.1.states sampleName) (keyOf 2) none) ∧
      step (apply sampleConfig OnResponse.unit) s (ClientStep.submit (staleSubmission 0)).op =
        s := by
  intro s
  have hserial := accepted_rollups_serializable sampleConfig OnResponse.unit (genesis, ())
    clientSteps
  obtain ⟨s₂, hok⟩ : ∃ s₂, rollup sampleConfig OnResponse.unit (.signed 0) sampleName
      (staleSubmission 1).tx 1 s = .ok s₂ := ⟨_, rfl⟩
  obtain ⟨f, herr⟩ : ∃ f, rollup sampleConfig OnResponse.unit (.signed 0) sampleName
      (staleSubmission 0).tx 1 s = .error f := ⟨_, rfl⟩
  refine ⟨fun hsame => ?_, ⟨s₂, hok, ?_⟩, (hserial.1 (staleSubmission 0)).2 f herr⟩
  · exact absurd (congrFun hsame (keyOf 0)) (by decide +kernel)
  · obtain ⟨_, heval, hstore⟩ := (hserial.1 (staleSubmission 1)).1 s₂ hok
    rw [heval] at hstore
    exact hstore

end Paraxiom.Anchor
