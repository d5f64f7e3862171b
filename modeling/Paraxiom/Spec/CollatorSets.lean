import Paraxiom.Spec.CollatorKick

/-!
# How many collators there are, and that they are different

Three properties of the set of collators over whole runs. No operation takes the number of
candidates below `MinCandidates`. There are no more candidates than desired, except after a
call that desires fewer than there are. And no account is twice among the collators of a
session, except after a call that makes a candidate, or one account twice, invulnerable: of
the two lists only `register_as_candidate` looks at the other.
-/

namespace Paraxiom.CollatorSelection

open Transactional

variable {AccountId : Type} [DecidableEq AccountId] {cfg : Config AccountId}

/-! ## The minimum -/

/-- A session leaves at least `MinCandidates`, or does nothing. -/
theorem Kicks.min_le_length {s s' : State cfg} (h : Kicks s s') :
    min s.candidates.length cfg.minCandidates.toNat ≤ s'.candidates.length := by
  induction h with
  | refl => exact Nat.min_le_left ..
  | tail _ hkick _ =>
    obtain ⟨c, _, hmin, hremoves⟩ := hkick
    have hlen := hremoves.length
    omega

/-- Once there are `MinCandidates` there are, and before that no candidate is lost. -/
theorem min_minCandidates_le_length_run (s : State cfg) (ops : List (Op cfg)) :
    min s.candidates.length cfg.minCandidates.toNat ≤ (run apply s ops).candidates.length := by
  refine run_invariant (I := fun t : State cfg =>
    min s.candidates.length cfg.minCandidates.toNat ≤ t.candidates.length)
    (step_invariant fun t op t' haccepted hle => ?_) (Nat.min_le_left ..) ops
  cases haccepted with
  | registerAsCandidate _ _ _ _ _ hcands =>
    refine Nat.le_trans hle ?_
    unfold BoundedList.length
    rw [hcands, List.length_append]
    exact Nat.le_add_right ..
  | leaveIntent hmin hremoves =>
    -- there was one more than `MinCandidates`
    have hlen := hremoves.length
    omega
  | newSession hkicks =>
    -- the loop stops there
    have hmin := hkicks.min_le_length
    omega
  | _ => exact hle

/-! ## The desired number -/

/-- There are no more candidates than desired. -/
def State.WithinDesired (s : State cfg) : Prop :=
  s.candidates.length ≤ s.desiredCandidates.toNat

/-- Only a new desired number can be exceeded: a registration is checked against it. -/
theorem withinDesired_of_accepted {s s' : State cfg} {op : Op cfg} (h : Accepted s op s')
    (hop : ∀ origin max, op ≠ .setDesiredCandidates origin max) (hle : s.WithinDesired) :
    s'.WithinDesired := by
  cases h with
  | setDesiredCandidates => exact absurd rfl (hop _ _)
  | registerAsCandidate hlt _ _ _ _ hcands =>
    -- the new candidate found a place that was desired
    have hlen := congrArg List.length hcands
    rw [List.length_append] at hlen
    exact Nat.le_trans (Nat.le_of_eq hlen) hlt
  | leaveIntent _ hremoves =>
    unfold State.WithinDesired
    rw [hremoves.sameSettings.desiredCandidates]
    exact Nat.le_trans hremoves.sublist.length_le hle
  | newSession hkicks =>
    unfold State.WithinDesired
    rw [hkicks.sameSettings.desiredCandidates]
    exact Nat.le_trans hkicks.sublist.length_le hle
  | _ => exact hle

/-- A new desired number is not checked against the candidates. -/
theorem withinDesired_of_setDesiredCandidates {s s' : State cfg} {origin : Origin AccountId}
    {max : UInt32} (h : Accepted s (.setDesiredCandidates origin max) s') :
    s'.WithinDesired ↔ s.candidates.length ≤ max.toNat := by
  cases h
  rfl

/-- There are more candidates than desired only after a call that desired fewer than there
    were: in a run from genesis the bound holds throughout if and only if every accepted
    `set_desired_candidates` asks for no fewer than there are. -/
theorem candidates_le_desired_iff {genesis : GenesisConfig AccountId}
    {balances : cfg.currency.Balances} {isRegistered : cfg.ValidatorId → Bool} {s₀ : State cfg}
    (hbuild : genesis.build balances isRegistered = .ok s₀) (ops : List (Op cfg)) :
    (∀ e ∈ history apply s₀ ops, e.post.candidates.length ≤ e.post.desiredCandidates.toNat) ↔
      ∀ e ∈ history apply s₀ ops, ∀ origin max, e.op = .setDesiredCandidates origin max →
        e.Succeeded → e.pre.candidates.length ≤ max.toNat := by
  have hinit : s₀.WithinDesired := by
    obtain ⟨_, _, _, heq⟩ := build_eq_ok hbuild
    rw [heq]
    exact Nat.zero_le _
  -- no other call can break the bound, so it is enough to look at the states after these
  refine (forall_post_iff_of_op (I := State.WithinDesired)
    (P := fun op => ∃ origin max, op = .setDesiredCandidates origin max)
    (fun s op s' haccepted hop => withinDesired_of_accepted haccepted fun origin max heq =>
      hop ⟨origin, max, heq⟩) hinit ops).trans (forall₂_congr fun e he => ?_)
  constructor
  · intro h origin max hop hsucceeded
    exact (withinDesired_of_setDesiredCandidates (hop ▸ accepted_of_mem_history he hsucceeded)).mp
      (h ⟨origin, max, hop⟩ hsucceeded)
  · rintro h ⟨origin, max, hop⟩ hsucceeded
    exact (withinDesired_of_setDesiredCandidates (hop ▸ accepted_of_mem_history he hsucceeded)).mpr
      (h origin max hop hsucceeded)

/-- Two candidates, then only one desired. -/
private def desiredOps : List (Op smallConfig) :=
  [.registerAsCandidate (.signed 1), .registerAsCandidate (.signed 2),
    .setDesiredCandidates .root 1]

/-- The bound is broken, for one is desired where there are two. -/
theorem candidates_le_desired_iff_sample :
    ¬∀ e ∈ history apply smallGenesis desiredOps,
      e.post.candidates.length ≤ e.post.desiredCandidates.toNat := by
  intro h
  have h := (candidates_le_desired_iff smallGenesis_build desiredOps).mp h
    (event apply (run apply smallGenesis (desiredOps.take 2)) (.setDesiredCandidates .root 1))
    (by simp [desiredOps]) .root 1 rfl ⟨.done, rfl⟩
  exact absurd h (by decide)

/-! ## Different collators -/

/-- The collators a session gets that starts now. -/
def State.collators (s : State cfg) : List AccountId := s.invulnerables.toList ++ s.accounts

/-- No collator twice: not among the invulnerables, not among the candidates, and not across. -/
theorem nodup_collators_iff (s : State cfg) :
    s.collators.Nodup ↔
      s.invulnerables.toList.Nodup ∧ s.accounts.Nodup ∧
        ∀ a ∈ s.invulnerables.toList, a ∉ s.accounts := by
  unfold State.collators
  rw [List.nodup_append]
  refine and_congr_right fun _ => and_congr_right fun _ => ?_
  exact ⟨fun h a ha hmem => h a ha a hmem rfl, fun h a ha b hb hab => h a ha (hab ▸ hb)⟩

/-- Fewer candidates are different collators still. -/
theorem nodup_collators_of_sublist {s s' : State cfg} (hsettings : SameSettings s s')
    (hsub : s'.candidates.toList.Sublist s.candidates.toList) (h : s.collators.Nodup) :
    s'.collators.Nodup := by
  unfold State.collators at h ⊢
  rw [hsettings.invulnerables]
  exact h.sublist ((hsub.map _).append_left _)

/-- Candidates are checked against the invulnerables when they register. -/
theorem nodup_collators_of_accepted {s s' : State cfg} {op : Op cfg} (h : Accepted s op s')
    (hop : ∀ origin new, op ≠ .setInvulnerables origin new) (hnodup : s.collators.Nodup) :
    s'.collators.Nodup := by
  cases h with
  | setInvulnerables => exact absurd rfl (hop _ _)
  | registerAsCandidate _ hinv _ hnew _ hcands =>
    unfold State.collators State.accounts at hnodup ⊢
    rw [hcands, List.map_append, ← List.append_assoc]
    -- the new candidate comes last, and is neither invulnerable nor a candidate already
    refine List.nodup_append.mpr ⟨hnodup, List.nodup_singleton _, ?_⟩
    rintro a ha b hb rfl
    obtain rfl := List.mem_singleton.mp hb
    exact (List.mem_append.mp ha).elim hinv hnew
  | leaveIntent _ hremoves =>
    exact nodup_collators_of_sublist hremoves.sameSettings hremoves.sublist hnodup
  | newSession hkicks =>
    exact nodup_collators_of_sublist hkicks.sameSettings hkicks.sublist hnodup
  | _ => exact hnodup

/-- New invulnerables are checked against nothing. -/
theorem nodup_collators_of_setInvulnerables {s s' : State cfg} {origin : Origin AccountId}
    {new : List AccountId} (h : Accepted s (.setInvulnerables origin new) s')
    (hnodup : s.accounts.Nodup) :
    s'.collators.Nodup ↔ new.Nodup ∧ ∀ a ∈ new, a ∉ s.accounts := by
  rw [nodup_collators_iff]
  cases h with
  | setInvulnerables _ hbounded _ =>
    subst hbounded
    exact and_congr_right fun _ => and_iff_right hnodup

/-- The states of a run from genesis are reachable. -/
theorem reachable_of_mem_history {genesis : GenesisConfig AccountId}
    {balances : cfg.currency.Balances} {isRegistered : cfg.ValidatorId → Bool} {s₀ : State cfg}
    (hbuild : genesis.build balances isRegistered = .ok s₀) {ops : List (Op cfg)}
    {e : Transactional.Event (State cfg) (Op cfg) (Failure (DispatchError cfg)) (Answer AccountId)}
    (he : e ∈ history apply s₀ ops) : Reachable e.pre := by
  obtain ⟨before, op, after, _, rfl⟩ := mem_history he
  exact ⟨genesis, balances, isRegistered, s₀, before, hbuild, rfl⟩

/-- What a session hands out are the collators of the state it leaves. -/
theorem collators_of_newSession {s s' : State cfg} {index : UInt32} {collators : List AccountId}
    (hnodup : s.accounts.Nodup)
    (h : apply (.newSession index) s = .ok (.collators (some collators), s')) :
    collators = s'.collators := by
  obtain ⟨⟨_, _⟩, hok, h⟩ := Exec.bind_eq_ok.mp h
  obtain ⟨hcollators, rfl⟩ := Prod.mk.inj (Exec.pure_eq_ok.mp h)
  rw [newSession_eq_ok hnodup index] at hok
  obtain ⟨hlist, rfl⟩ := Prod.mk.inj (Except.ok.inj hok)
  rw [← hlist] at hcollators
  exact (Option.some.inj (Answer.collators.inj hcollators)).symm

/-- In a run from genesis the collators are different in every state, and in what every
    session hands out, if and only if every accepted `set_invulnerables` lists different
    accounts none of whom is a candidate: the call itself checks neither. -/
theorem nodup_collators_throughout_iff {genesis : GenesisConfig AccountId}
    {balances : cfg.currency.Balances} {isRegistered : cfg.ValidatorId → Bool} {s₀ : State cfg}
    (hbuild : genesis.build balances isRegistered = .ok s₀) (ops : List (Op cfg)) :
    (∀ e ∈ history apply s₀ ops, e.post.collators.Nodup ∧
      ∀ index collators, e.op = .newSession index → e.result = .ok (.collators (some collators)) →
        collators.Nodup) ↔
      ∀ e ∈ history apply s₀ ops, ∀ origin new, e.op = .setInvulnerables origin new →
        e.Succeeded → new.Nodup ∧ ∀ a ∈ new, a ∉ e.pre.accounts := by
  have hinit : s₀.collators.Nodup := by
    obtain ⟨hinv, hnodup, _, heq⟩ := build_eq_ok hbuild
    rw [heq]
    exact (nodup_collators_iff _).mpr
      ⟨hinv ▸ hnodup, List.nodup_nil, fun a _ => List.not_mem_nil⟩
  -- a session hands out the collators of the state it leaves, so that these say nothing new
  have hsessions : (∀ e ∈ history apply s₀ ops, e.post.collators.Nodup ∧
      ∀ index collators, e.op = .newSession index → e.result = .ok (.collators (some collators)) →
        collators.Nodup) ↔ ∀ e ∈ history apply s₀ ops, e.post.collators.Nodup := by
    refine forall₂_congr fun e he => and_iff_left_of_imp fun hpost index collators hop hresult => ?_
    have haccounts := (reachable_of_mem_history hbuild he).nodup_accounts
    obtain ⟨before, op, after, _, rfl⟩ := mem_history he
    obtain rfl : op = .newSession index := hop
    rw [collators_of_newSession haccounts (event_result_eq_ok.mp hresult)]
    exact hpost
  -- and only new invulnerables can repeat an account
  refine hsessions.trans ((forall_post_iff_of_op (I := fun s : State cfg => s.collators.Nodup)
    (P := fun op => ∃ origin new, op = .setInvulnerables origin new)
    (fun s op s' haccepted hop => nodup_collators_of_accepted haccepted fun origin new heq =>
      hop ⟨origin, new, heq⟩) hinit ops).trans (forall₂_congr fun e he => ?_))
  have haccounts := (reachable_of_mem_history hbuild he).nodup_accounts
  constructor
  · intro h origin new hop hsucceeded
    exact (nodup_collators_of_setInvulnerables (hop ▸ accepted_of_mem_history he hsucceeded)
      haccounts).mp (h ⟨origin, new, hop⟩ hsucceeded)
  · rintro h ⟨origin, new, hop⟩ hsucceeded
    exact (nodup_collators_of_setInvulnerables (hop ▸ accepted_of_mem_history he hsucceeded)
      haccounts).mpr (h origin new hop hsucceeded)

/-- A candidate that is made invulnerable is handed out twice. -/
theorem nodup_collators_throughout_iff_sample :
    ¬∀ e ∈ history apply smallGenesis
        [.registerAsCandidate (.signed 1), .setInvulnerables .root [1], .newSession 0],
      e.post.collators.Nodup ∧
        ∀ index collators, e.op = .newSession index →
          e.result = .ok (.collators (some collators)) → collators.Nodup := by
  intro h
  have h := (nodup_collators_throughout_iff smallGenesis_build _).mp h
    (event apply (run apply smallGenesis [.registerAsCandidate (.signed 1)])
      (.setInvulnerables .root [1])) (by simp) .root [1] rfl ⟨.done, rfl⟩
  exact absurd h (by decide)

end Paraxiom.CollatorSelection
