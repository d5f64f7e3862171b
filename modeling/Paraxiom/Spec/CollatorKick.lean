import Paraxiom.ForStd.BudgetedRemoval
import Paraxiom.Spec.CollatorSteps

/-!
# What a session removes

`kick_stale_candidates` walks a copy of the candidates and looks at storage for each of them:
at the block it last authored and at the number of candidates left, both of which the removals
before it change. Here the outcome is stated on the state before the session alone: the stale
candidates are removed in the order of their registration until `MinCandidates` are left, and
the list handed to the session pallet is the one in storage.

This needs that no account is twice among the candidates, which holds in every reachable state.
-/

namespace Paraxiom.CollatorSelection

open BudgetedRemoval

variable {AccountId : Type} [DecidableEq AccountId] {cfg : Config AccountId}

/-! ## Accounts are candidates once -/

/-- The accounts of the candidates, in the order of their registration. -/
abbrev State.accounts (s : State cfg) : List AccountId := s.candidates.toList.map (·.who)

/-- No account becomes a candidate twice. -/
theorem nodup_accounts_of_accepted {s s' : State cfg} {op : Op cfg} (h : Accepted s op s')
    (hnodup : s.accounts.Nodup) : s'.accounts.Nodup := by
  cases h with
  | registerAsCandidate _ _ _ hnew _ hcands =>
    unfold State.accounts at hnodup hnew ⊢
    rw [hcands, List.map_append]
    refine List.nodup_append.mpr ⟨hnodup, List.nodup_singleton _, ?_⟩
    rintro a ha b hb rfl
    obtain rfl := List.mem_singleton.mp hb
    exact hnew ha
  | leaveIntent _ hremoves => exact hnodup.sublist (hremoves.sublist.map _)
  | newSession hkicks => exact hnodup.sublist (hkicks.sublist.map _)
  | _ => exact hnodup

/-- And so none is in a state that is reached. -/
theorem Reachable.nodup_accounts {s : State cfg} (h : Reachable s) : s.accounts.Nodup := by
  obtain ⟨genesis, balances, isRegistered, s₀, ops, hbuild, rfl⟩ := h
  refine Transactional.run_invariant (I := fun s : State cfg => s.accounts.Nodup)
    (step_invariant fun _ _ _ => nodup_accounts_of_accepted) ?_ ops
  obtain ⟨_, _, _, heq⟩ := build_eq_ok hbuild
  rw [heq]
  exact List.nodup_nil

/-! ## The outcome of a session -/

/-- The candidate is stale. -/
def State.isStale (s : State cfg) (c : CandidateInfo AccountId) : Bool := s.Stale c.who

/-- How many candidates there are above the minimum. -/
def State.budget (s : State cfg) : Nat := s.candidates.length - cfg.minCandidates.toNat

/-- The candidates that a session in `s` removes. -/
def State.kicked (s : State cfg) : List (CandidateInfo AccountId) :=
  removed s.isStale s.budget s.candidates.toList

/-- The candidates that a session in `s` leaves. -/
def State.survivors (s : State cfg) :
    BoundedList (CandidateInfo AccountId) cfg.maxCandidates.toNat :=
  ⟨s.candidates.toList.filter fun c => c ∉ s.kicked,
    Nat.le_trans (List.length_filter_le ..) s.candidates.length_le⟩

/-- The state after `kicked` are removed and `rest` are the candidates left. -/
def State.withoutAll (s : State cfg) (kicked : List (CandidateInfo AccountId))
    (rest : BoundedList (CandidateInfo AccountId) cfg.maxCandidates.toNat) : State cfg :=
  { s with
    candidates := rest
    lastAuthoredBlock := fun a => if a ∈ kicked.map (·.who) then 0 else s.lastAuthoredBlock a
    events := s.events ++ kicked.map fun c => .candidateRemoved c.who
    balances := kicked.foldl (fun b c => cfg.currency.unreserve c.who c.deposit b) s.balances }

/-- Nobody is kicked. -/
theorem withoutAll_nil (s : State cfg) : s.withoutAll [] s.candidates = s := by
  simp [State.withoutAll]

/-- Removing one candidate and then others removes all of them. -/
theorem withoutAll_without (s : State cfg) (c : CandidateInfo AccountId)
    (kicked : List (CandidateInfo AccountId))
    (rest rest' : BoundedList (CandidateInfo AccountId) cfg.maxCandidates.toNat) :
    (s.without c rest).withoutAll kicked rest' = s.withoutAll (c :: kicked) rest' := by
  unfold State.withoutAll State.without
  congr 1
  · -- the last blocks of all of them are taken
    funext a
    dsimp only
    by_cases hkicked : a ∈ kicked.map (·.who)
    · rw [if_pos hkicked]
      exact (if_pos (List.mem_cons_of_mem _ hkicked)).symm
    · rw [if_neg hkicked, Function.update_apply]
      refine if_congr ?_ rfl rfl
      rw [List.map_cons, List.mem_cons, or_iff_left hkicked]
  · rw [List.map_cons, List.append_assoc, List.singleton_append]

section Loop

variable {t : State cfg} {c : CandidateInfo AccountId} {done cs : List (CandidateInfo AccountId)}

/-- The candidate after `done` is removed: it is the only one of its account. -/
private theorem removes_of_split (hcands : t.candidates.toList = done ++ c :: cs)
    (hnodup : t.accounts.Nodup) :
    ∃ rest, rest.toList = done ++ cs ∧ Removes c t (t.without c rest) ∧
      ∀ c' ∈ cs, c'.who ≠ c.who := by
  rw [State.accounts, hcands, List.map_append, List.map_cons] at hnodup
  obtain ⟨_, hcs, hdisj⟩ := List.nodup_append.mp hnodup
  have hfirst : c.who ∉ done.map (·.who) := fun hmem => hdisj _ hmem _ List.mem_cons_self rfl
  have hle : (done ++ cs).length ≤ cfg.maxCandidates.toNat := by
    have hbound := t.candidates.length_le
    rw [hcands, List.length_append, List.length_cons] at hbound
    rw [List.length_append]
    omega
  exact ⟨⟨done ++ cs, hle⟩, rfl, ⟨done, cs, _, hcands, hfirst, rfl, rfl⟩,
    fun c' hc' heq => (List.nodup_cons.mp hcs).1 (heq ▸ List.mem_map_of_mem hc')⟩

/-- A removal takes one from the budget. -/
private theorem budget_without
    {rest : BoundedList (CandidateInfo AccountId) cfg.maxCandidates.toNat}
    (hcands : t.candidates.toList = done ++ c :: cs) (hrest : rest.toList = done ++ cs)
    (hmin : cfg.minCandidates.toNat < t.candidates.length) :
    t.budget = (t.without c rest).budget + 1 := by
  have hlen : t.candidates.length = rest.length + 1 := by
    unfold BoundedList.length
    rw [hcands, hrest, List.length_append, List.length_append, List.length_cons]
    rfl
  show t.candidates.length - _ = rest.length - _ + 1
  omega

/-- A removal leaves the other accounts as stale as they were. -/
private theorem isStale_without
    {rest : BoundedList (CandidateInfo AccountId) cfg.maxCandidates.toNat}
    (hothers : ∀ c' ∈ cs, c'.who ≠ c.who) :
    ∀ c' ∈ cs, t.isStale c' = (t.without c rest).isStale c' := by
  intro c' hc'
  refine decide_eq_decide.mpr ?_
  unfold State.Stale State.without
  dsimp only
  rw [Function.update_of_ne (hothers c' hc')]

/-- The loop, from a point where `done` are the candidates it has passed on and `cs` those it
    has not yet looked at. Induction on `cs`. -/
private theorem kickLoop (hcands : t.candidates.toList = done ++ cs) (hnodup : t.accounts.Nodup)
    (kept : List AccountId) :
    ∃ rest, rest.toList = done ++ removeFirst t.isStale t.budget cs ∧
      cs.foldlM kickOrKeep (kept, t) =
        .ok (kept ++ (removeFirst t.isStale t.budget cs).map (·.who),
          t.withoutAll (removed t.isStale t.budget cs) rest) := by
  induction cs generalizing done t kept with
  | nil =>
    refine ⟨t.candidates, by rw [removeFirst_nil, hcands], ?_⟩
    rw [removeFirst_nil, removed_nil, withoutAll_nil, List.map_nil, List.append_nil]
    rfl
  | cons c cs ih =>
    by_cases hkept : ¬t.Stale c.who ∨ t.candidates.length ≤ cfg.minCandidates.toNat
    · -- the candidate joins those passed on
      have hstays : ¬t.isStale c = true ∨ t.budget = 0 :=
        hkept.imp (fun hfresh h => hfresh (of_decide_eq_true h)) Nat.sub_eq_zero_of_le
      rw [removeFirst_cons_of_neg _ hstays, removed_cons_of_neg _ hstays]
      rw [List.append_cons] at hcands
      obtain ⟨rest, hrest, hloop⟩ := ih hcands hnodup (kept ++ [c.who])
      refine ⟨rest, by rw [hrest, List.append_assoc, List.singleton_append], ?_⟩
      rw [List.foldlM_cons]
      refine Exec.bind_eq_ok.mpr ⟨_, Exec.bind_eq_ok.mpr ⟨_, kickCandidate_of_kept hkept, rfl⟩, ?_⟩
      rw [List.append_assoc, List.singleton_append] at hloop
      exact hloop
    · -- the candidate is removed
      obtain ⟨hstale, hmin⟩ := not_or.mp hkept
      have hstale := not_not.mp hstale
      have hmin := Nat.lt_of_not_le hmin
      obtain ⟨rest₁, hrest₁, hremoves, hothers⟩ := removes_of_split hcands hnodup
      have hnodup₁ : (t.without c rest₁).accounts.Nodup := hnodup.sublist (hremoves.sublist.map _)
      obtain ⟨rest, hrest, hloop⟩ := ih (t := t.without c rest₁) hrest₁ hnodup₁ kept
      have hstale' : t.isStale c = true := decide_eq_true hstale
      have hsame : ∀ c' ∈ cs, t.isStale c' = (t.without c rest₁).isStale c' :=
        isStale_without hothers
      rw [budget_without hcands hrest₁ hmin, removeFirst_cons_of_pos _ hstale',
        removed_cons_of_pos _ hstale', removeFirst_congr hsame, removed_congr hsame]
      refine ⟨rest, hrest, ?_⟩
      -- one iteration, and then the rest of the loop from the state it leaves
      rw [List.foldlM_cons, ← withoutAll_without t c _ rest₁ rest]
      refine Exec.bind_eq_ok.mpr ⟨_, Exec.bind_eq_ok.mpr ⟨_, kickCandidate_of_kicked hstale hmin
        (tryRemoveCandidate_eq_ok.mpr ⟨c, rfl, hremoves, rfl⟩), rfl⟩, ?_⟩
      rw [Option.toList_none, List.append_nil]
      exact hloop

end Loop

/-- A session in a state without repetitions among the candidates. -/
theorem newSession_eq_ok {s : State cfg} (hnodup : s.accounts.Nodup) (index : UInt32) :
    newSession index s = .ok (some (s.invulnerables.toList ++ s.survivors.toList.map (·.who)),
      s.withoutAll s.kicked s.survivors) := by
  have hfirst : s.survivors.toList = removeFirst s.isStale s.budget s.candidates.toList :=
    (removeFirst_eq_filter _ _ hnodup.of_map).symm
  obtain ⟨rest, hrest, hloop⟩ := kickLoop (List.nil_append s.candidates.toList).symm hnodup []
  obtain rfl : rest = s.survivors := BoundedList.ext (hrest.trans hfirst.symm)
  rw [← hfirst, List.nil_append] at hloop
  have hle : (s.survivors.toList.map (·.who)).length ≤ cfg.maxCandidates.toNat := by
    rw [List.length_map]
    exact s.survivors.length_le
  unfold newSession kickStaleCandidates
  refine Exec.bind_eq_ok.mpr ⟨(⟨_, hle⟩, s.withoutAll s.kicked s.survivors),
    Exec.bind_eq_ok.mpr ⟨_, hloop, ?_⟩, rfl⟩
  exact Exec.bind_eq_ok.mpr ⟨_, expect_eq_ok.mpr (BoundedList.tryFrom_of_le hle), rfl⟩

/-- What a session does in any reachable state: it removes the stale candidates, in the order
    of their registration, down to `MinCandidates`; each of them gets its deposit back and is
    announced; and the collators of the session are the invulnerables and the candidates that
    storage still has. -/
theorem newSession_of_reachable {s : State cfg} (h : Reachable s) (index : UInt32) :
    ∃ kicked survivors, newSession index s =
        .ok (some (s.invulnerables.toList ++ survivors.toList.map (·.who)), { s with
          candidates := survivors
          lastAuthoredBlock := fun a =>
            if a ∈ kicked.map (·.who) then 0 else s.lastAuthoredBlock a
          events := s.events ++ kicked.map fun c => .candidateRemoved c.who
          balances :=
            kicked.foldl (fun b c => cfg.currency.unreserve c.who c.deposit b) s.balances }) ∧
      kicked = (s.candidates.toList.filter fun c => s.Stale c.who).take
        (s.candidates.length - cfg.minCandidates.toNat) ∧
      survivors.toList = s.candidates.toList.filter fun c => c ∉ kicked :=
  ⟨s.kicked, s.survivors, newSession_eq_ok h.nodup_accounts index, rfl, rfl⟩

/-- Two candidates, of whom only account 2 has authored a block of late. -/
private def staleOps : List (Op smallConfig) :=
  [.registerAsCandidate (.signed 1), .registerAsCandidate (.signed 2), .nextBlock, .nextBlock,
    .nextBlock, .nextBlock, .noteAuthor 2]

/-- Account 1 is kicked and gets its bond back. -/
theorem newSession_of_reachable_sample :
    ∃ s', newSession 0 (Transactional.run apply smallGenesis staleOps) =
        .ok (some [7, 2], s') ∧ s'.accounts = [2] ∧ s'.balances 1 = (100, 0) ∧
      s'.events = [.candidateAdded 1 10, .candidateAdded 2 10, .candidateRemoved 1] := by
  obtain ⟨kicked, survivors, hok, rfl, hsurvivors⟩ := newSession_of_reachable
    (s := Transactional.run apply smallGenesis staleOps)
    ⟨_, _, _, _, _, smallGenesis_build, rfl⟩ 0
  have hlist : survivors.toList = [⟨2, 10⟩] := hsurvivors.trans (by decide)
  have haccounts : survivors.toList.map (·.who) = [2] := by rw [hlist]; rfl
  rw [haccounts] at hok
  exact ⟨_, hok, haccounts, rfl, rfl⟩

end Paraxiom.CollatorSelection
