import Paraxiom.Spec.CollatorKick

/-!
# Who is kicked

`LastAuthoredBlock` is written at a registration, which adds the threshold to the current
block, and by every block the account authors, which does not. Read against the history of
the chain: a session kicks only candidates that authored no block within the threshold and
last registered at least the threshold ago, and twice that if they never authored since.
-/

namespace Paraxiom.CollatorSelection

open Transactional

variable {AccountId : Type} [DecidableEq AccountId] {cfg : Config AccountId}

/-- The events of the pallet's runs. -/
abbrev PastEvent (cfg : Config AccountId) :=
  Transactional.Event (State cfg) (Op cfg) (Failure (DispatchError cfg)) (Answer AccountId)

/-! ## Removals and the last block -/

/-- A removal forgets the last block of the account removed, and no other. -/
theorem Removes.lastAuthoredBlock_eq {c : CandidateInfo AccountId} {s s' : State cfg}
    (h : Removes c s s') (hnodup : s.accounts.Nodup) {a : AccountId} (ha : a ∈ s'.accounts) :
    s'.lastAuthoredBlock a = s.lastAuthoredBlock a := by
  obtain ⟨before, after, rest, hsplit, hfirst, hrest, rfl⟩ := h
  refine Function.update_of_ne (fun heq => ?_) ..
  -- the account of the removed candidate is not among the others
  unfold State.accounts at hnodup ha
  rw [hsplit, List.map_append, List.map_cons] at hnodup
  rw [show (s.without c rest).candidates = rest from rfl, hrest, List.map_append, heq] at ha
  rcases List.mem_append.mp ha with ha | ha
  · exact hfirst ha
  · exact (List.nodup_cons.mp (List.nodup_append.mp hnodup).2.1).1 ha

/-- A session leaves the last blocks of the candidates that it leaves. -/
theorem Kicks.lastAuthoredBlock_eq {s s' : State cfg} (h : Kicks s s') (hnodup : s.accounts.Nodup)
    {a : AccountId} (ha : a ∈ s'.accounts) : s'.lastAuthoredBlock a = s.lastAuthoredBlock a := by
  induction h with
  | refl => rfl
  | tail hkicks hkick ih =>
    obtain ⟨c, _, _, hremoves⟩ := hkick
    have hnodup' := hnodup.sublist ((Kicks.sublist hkicks).map (·.who))
    rw [hremoves.lastAuthoredBlock_eq hnodup' ha]
    exact ih ((hremoves.sublist.map _).subset ha)

/-! ## The last block and the history -/

/-- How the last block of a candidate bounds what it did: `L` is not before any block it
    authored, nor before the block of its last accepted registration, and the threshold after
    that if it did not author since. -/
structure LastSeen (a : AccountId) (past : List (PastEvent cfg)) (L : BlockNumber) : Prop where
  authored_le : ∀ e ∈ past, e.op = .noteAuthor a → e.pre.blockNumber ≤ L
  registered : ∃ (before : List (PastEvent cfg)) (e : PastEvent cfg) (later : List (PastEvent cfg)),
    past = before ++ e :: later ∧
    e.op = .registerAsCandidate (.signed a) ∧ e.Succeeded ∧
    (∀ e' ∈ later, e'.op = .registerAsCandidate (.signed a) → ¬e'.Succeeded) ∧
    e.pre.blockNumber ≤ L ∧
    ((∀ e' ∈ later, e'.op ≠ .noteAuthor a) → e.pre.blockNumber + cfg.kickThreshold ≤ L)

/-- An event that is no block and no registration of `a` changes nothing. -/
theorem LastSeen.append {a : AccountId} {past : List (PastEvent cfg)} {L : BlockNumber}
    (h : LastSeen a past L) {e : PastEvent cfg} (he : e.op ≠ .noteAuthor a)
    (hregister : e.op = .registerAsCandidate (.signed a) → ¬e.Succeeded) :
    LastSeen a (past ++ [e]) L := by
  obtain ⟨hauthored, before, r, later, rfl, hop, hok, hlast, hle, hquiet⟩ := h
  refine ⟨fun e' he' hop' => ?_, before, r, later ++ [e], by simp, hop, hok, fun e' he' => ?_, hle,
    fun hnone => hquiet fun e' he' => hnone e' (List.mem_append_left _ he')⟩
  · rcases List.mem_append.mp he' with he' | he'
    · exact hauthored e' he' hop'
    · obtain rfl := List.mem_singleton.mp he'
      exact absurd hop' he
  · rcases List.mem_append.mp he' with he' | he'
    · exact hlast e' he'
    · obtain rfl := List.mem_singleton.mp he'
      exact hregister

/-- What holds of the candidates after a run. -/
structure Tracked (past : List (PastEvent cfg)) (s : State cfg) : Prop where
  nodup : s.accounts.Nodup
  past_le : ∀ e ∈ past, e.pre.blockNumber ≤ s.blockNumber
  last_le : ∀ a ∈ s.accounts, s.lastAuthoredBlock a ≤ s.blockNumber + cfg.kickThreshold
  lastSeen : ∀ a ∈ s.accounts, LastSeen a past (s.lastAuthoredBlock a)

namespace Tracked

variable {past : List (PastEvent cfg)} {s s' : State cfg} {e : PastEvent cfg}

/-- Events before the current block and the next one are all before the next one. -/
theorem past_le_append (h : Tracked past s) (hpre : e.pre = s)
    (hblock : s.blockNumber ≤ s'.blockNumber) :
    ∀ e' ∈ past ++ [e], e'.pre.blockNumber ≤ s'.blockNumber := by
  intro e' he'
  refine Nat.le_trans ?_ hblock
  rcases List.mem_append.mp he' with he' | he'
  · exact h.past_le e' he'
  · rw [List.mem_singleton.mp he', hpre]

/-- An event that is no block and no accepted registration leaves the last blocks of the
    candidates that it leaves. -/
theorem keep (h : Tracked past s) (hpre : e.pre = s) (hop : ∀ a, e.op ≠ .noteAuthor a)
    (hregister : ∀ a, e.op = .registerAsCandidate (.signed a) → ¬e.Succeeded)
    (hsub : s'.candidates.toList.Sublist s.candidates.toList)
    (hlast : ∀ a ∈ s'.accounts, s'.lastAuthoredBlock a = s.lastAuthoredBlock a)
    (hblock : s.blockNumber ≤ s'.blockNumber) : Tracked (past ++ [e]) s' := by
  have hmem : ∀ a ∈ s'.accounts, a ∈ s.accounts := fun a ha => (hsub.map _).subset ha
  refine ⟨h.nodup.sublist (hsub.map _), h.past_le_append hpre hblock, fun a ha => ?_,
    fun a ha => ?_⟩
  · rw [hlast a ha]
    exact Nat.le_trans (h.last_le a (hmem a ha)) (Nat.add_le_add_right hblock _)
  · rw [hlast a ha]
    exact (h.lastSeen a (hmem a ha)).append (hop a) (hregister a)

/-- A registration. -/
theorem register (h : Tracked past s) (hpre : e.pre = s) {who : AccountId}
    (hop : e.op = .registerAsCandidate (.signed who)) (hok : e.Succeeded)
    (hnodup : s'.accounts.Nodup) (haccounts : s'.accounts = s.accounts ++ [who])
    (hblock : s'.blockNumber = s.blockNumber)
    (hlast : s'.lastAuthoredBlock =
      Function.update s.lastAuthoredBlock who (s.blockNumber + cfg.kickThreshold)) :
    Tracked (past ++ [e]) s' := by
  have hpast := h.past_le_append hpre (Nat.le_of_eq hblock.symm)
  have hnew : s'.lastAuthoredBlock who = s.blockNumber + cfg.kickThreshold := by
    rw [hlast, Function.update_self]
  refine ⟨hnodup, hpast, fun a ha => ?_, fun a ha => ?_⟩
  · by_cases hwho : a = who
    · rw [hwho, hnew, hblock]
    · rw [haccounts, List.mem_append, List.mem_singleton] at ha
      rw [hlast, Function.update_of_ne hwho, hblock]
      exact h.last_le a (ha.resolve_right hwho)
  · by_cases hwho : a = who
    · subst hwho
      rw [hnew]
      -- this is the last registration: nothing comes after it
      refine ⟨fun e' he' _ => ?_, past, e, [], rfl, hop, hok,
        fun _ he' => absurd he' List.not_mem_nil, ?_, fun _ => ?_⟩
      · exact Nat.le_trans (hblock ▸ hpast e' he') (Nat.le_add_right ..)
      · rw [hpre]
        exact Nat.le_add_right ..
      · rw [hpre]
    · rw [haccounts, List.mem_append, List.mem_singleton] at ha
      rw [hlast, Function.update_of_ne hwho]
      refine (h.lastSeen a (ha.resolve_right hwho)).append (by rw [hop]; exact nofun) ?_
      -- the registration is another's
      rw [hop]
      exact fun heq => absurd (Origin.signed.inj (Op.registerAsCandidate.inj heq)).symm hwho

/-- A block. -/
theorem author (h : Tracked past s) (hpre : e.pre = s) {who : AccountId}
    (hop : e.op = .noteAuthor who) (hcands : s'.candidates = s.candidates)
    (hblock : s'.blockNumber = s.blockNumber)
    (hlast : s'.lastAuthoredBlock = Function.update s.lastAuthoredBlock who s.blockNumber) :
    Tracked (past ++ [e]) s' := by
  have haccounts : s'.accounts = s.accounts := congrArg (fun l => l.toList.map (·.who)) hcands
  have hpast := h.past_le_append hpre (Nat.le_of_eq hblock.symm)
  refine ⟨haccounts ▸ h.nodup, hpast, fun a ha => ?_, fun a ha => ?_⟩
  · by_cases hwho : a = who
    · -- the author's last block is this one
      rw [hlast, hwho, Function.update_self, hblock]
      exact Nat.le_add_right ..
    · rw [hlast, Function.update_of_ne hwho, hblock]
      exact h.last_le a (haccounts ▸ ha)
  · have hseen := h.lastSeen a (haccounts ▸ ha)
    by_cases hwho : a = who
    · subst hwho
      -- its last registration stays what it was, and there is a block since
      obtain ⟨_, before, r, later, rfl, hregister, hok, hlatest, _, _⟩ := hseen
      rw [hlast, Function.update_self]
      refine ⟨fun e' he' _ => hblock ▸ hpast e' he', before, r, later ++ [e], by simp, hregister,
        hok, fun e' he' => ?_, h.past_le r List.mem_append_cons_self, fun hnone => ?_⟩
      · rcases List.mem_append.mp he' with he' | he'
        · exact hlatest e' he'
        · rw [List.mem_singleton.mp he', hop]
          exact fun heq => nomatch heq
      · exact absurd hop (hnone e (List.mem_append_right _ (List.mem_singleton_self e)))
    · rw [hlast, Function.update_of_ne hwho]
      exact hseen.append (by rw [hop]; exact fun heq => hwho (Op.noteAuthor.inj heq).symm)
        (by rw [hop]; exact fun heq => nomatch heq)

/-- One more event keeps the candidates tracked. -/
theorem step (h : Tracked past s) (op : Op cfg) :
    Tracked (past ++ [event apply s op]) (Transactional.step apply s op) := by
  cases hok : apply op s with
  | error f =>
    rw [step_of_error hok]
    refine h.keep rfl (fun a heq => ?_) (fun _ _ hsucceeded => ?_) (List.Sublist.refl _)
      (fun _ _ => rfl) (Nat.le_refl _)
    · obtain rfl : op = .noteAuthor a := heq
      exact nomatch hok
    · -- a registration that fails is none
      obtain ⟨_, hresult⟩ := hsucceeded
      rw [event_result_eq_error.mpr hok] at hresult
      cases hresult
  | ok p =>
    obtain ⟨ans, s'⟩ := p
    rw [step_of_ok hok]
    have haccepted := accepted_of_apply hok
    have hnodup := nodup_accounts_of_accepted haccepted h.nodup
    cases haccepted with
    | setInvulnerables | setDesiredCandidates | setCandidacyBond | elsewhere =>
      exact h.keep rfl (fun _ => nofun) (fun _ heq => nomatch heq) (List.Sublist.refl _)
        (fun _ _ => rfl) (Nat.le_refl _)
    | nextBlock =>
      exact h.keep rfl (fun _ => nofun) (fun _ heq => nomatch heq) (List.Sublist.refl _)
        (fun _ _ => rfl) (Nat.le_succ _)
    | registerAsCandidate _ _ _ _ _ hcands =>
      refine h.register rfl rfl (event_succeeded hok) hnodup ?_ rfl rfl
      unfold State.accounts
      rw [hcands, List.map_append, List.map_singleton]
    | leaveIntent _ hremoves =>
      exact h.keep rfl (fun _ => nofun) (fun _ heq => nomatch heq) hremoves.sublist
        (fun a ha => hremoves.lastAuthoredBlock_eq h.nodup ha)
        (Nat.le_of_eq hremoves.sameSettings.blockNumber.symm)
    | rewarded | unrewarded => exact h.author rfl rfl rfl rfl rfl
    | newSession hkicks =>
      exact h.keep rfl (fun _ => nofun) (fun _ heq => nomatch heq) hkicks.sublist
        (fun a ha => hkicks.lastAuthoredBlock_eq h.nodup ha)
        (Nat.le_of_eq hkicks.sameSettings.blockNumber.symm)

end Tracked

/-- A candidate that a session removes is stale, and there are more than `MinCandidates`. -/
theorem stale_of_kicked {s s' : State cfg} (hnodup : s.accounts.Nodup) {index : UInt32}
    {ans : Answer AccountId} (hok : apply (.newSession index) s = .ok (ans, s')) {a : AccountId}
    (ha : a ∈ s.accounts) (ha' : a ∉ s'.accounts) :
    s.Stale a ∧ cfg.minCandidates.toNat < s.candidates.length := by
  obtain ⟨⟨_, _⟩, hsession, h⟩ := Exec.bind_eq_ok.mp hok
  obtain ⟨_, rfl⟩ := Prod.mk.inj (Exec.pure_eq_ok.mp h)
  rw [newSession_eq_ok hnodup index] at hsession
  obtain ⟨_, rfl⟩ := Prod.mk.inj (Except.ok.inj hsession)
  obtain ⟨c, hc, rfl⟩ := List.mem_map.mp ha
  -- who is no candidate afterwards is among those that the loop removed
  have hkicked : c ∈ s.kicked := by
    by_contra hstays
    refine ha' (List.mem_map_of_mem (List.mem_filter.mpr ⟨hc, ?_⟩))
    rw [decide_eq_true_eq]
    exact hstays
  refine ⟨of_decide_eq_true (BudgetedRemoval.mem_of_mem_removed _ hkicked).2, ?_⟩
  have hlen := BudgetedRemoval.length_removed_le s.isStale s.budget s.candidates.toList
  have hpos := List.length_pos_of_mem hkicked
  unfold State.kicked at hpos
  unfold State.budget at hlen hpos
  omega

/-- The last block may be ahead of the current one, but by no more than the threshold. -/
private theorem add_le_of_le_sub {last now threshold : Nat} (hstale : threshold ≤ now - last)
    (hle : last ≤ now + threshold) : last + threshold ≤ now := by
  omega

/-- A session kicks a candidate only if it authored no block within the threshold, last
    registered at least the threshold ago, and twice that if it authored no block since, and if
    there are more than `MinCandidates`. -/
theorem inactive_of_kicked {genesis : GenesisConfig AccountId} {balances : cfg.currency.Balances}
    {isRegistered : cfg.ValidatorId → Bool} {s₀ s s' : State cfg} {ops : List (Op cfg)}
    (hbuild : genesis.build balances isRegistered = .ok s₀) (hs : s = run apply s₀ ops)
    {index : UInt32} {ans : Answer AccountId}
    (hok : apply (.newSession index) s = .ok (ans, s')) {a : AccountId}
    (ha : a ∈ s.accounts) (ha' : a ∉ s'.accounts) :
    cfg.minCandidates.toNat < s.candidates.length ∧
      (∀ e ∈ history apply s₀ ops, e.op = .noteAuthor a →
        e.pre.blockNumber + cfg.kickThreshold ≤ s.blockNumber) ∧
      ∃ (before : List (PastEvent cfg)) (e : PastEvent cfg) (later : List (PastEvent cfg)),
        history apply s₀ ops = before ++ e :: later ∧
        e.op = .registerAsCandidate (.signed a) ∧ e.Succeeded ∧
        (∀ e' ∈ later, e'.op = .registerAsCandidate (.signed a) → ¬e'.Succeeded) ∧
        e.pre.blockNumber + cfg.kickThreshold ≤ s.blockNumber ∧
        ((∀ e' ∈ later, e'.op ≠ .noteAuthor a) →
          e.pre.blockNumber + 2 * cfg.kickThreshold ≤ s.blockNumber) := by
  subst hs
  have hinit : Tracked [] s₀ := by
    obtain ⟨_, _, _, heq⟩ := build_eq_ok hbuild
    rw [heq]
    exact ⟨List.nodup_nil, fun e he => absurd he List.not_mem_nil,
      fun a ha => absurd ha List.not_mem_nil, fun a ha => absurd ha List.not_mem_nil⟩
  have htracked := history_induction (G := fun _ => True) hinit
    (fun past s op _ h => h.step op) ops fun _ _ => trivial
  obtain ⟨hstale, hmin⟩ := stale_of_kicked htracked.nodup hok ha ha'
  have hlast : (run apply s₀ ops).lastAuthoredBlock a + cfg.kickThreshold ≤
      (run apply s₀ ops).blockNumber :=
    add_le_of_le_sub hstale (htracked.last_le a ha)
  obtain ⟨hauthored, before, e, later, hsplit, hop, hsucceeded, hlatest, hle, hquiet⟩ :=
    htracked.lastSeen a ha
  refine ⟨hmin, fun e he hop => ?_, before, e, later, hsplit, hop, hsucceeded, hlatest, ?_,
    fun hnone => ?_⟩
  · exact Nat.le_trans (Nat.add_le_add_right (hauthored e he hop) _) hlast
  · exact Nat.le_trans (Nat.add_le_add_right hle _) hlast
  · rw [Nat.two_mul, ← Nat.add_assoc]
    exact Nat.le_trans (Nat.add_le_add_right (hquiet hnone) _) hlast

/-- Account 1 registers and leaves at block 0, registers again at block 1, authors that block
    and no other, and is kicked at block 4. -/
private def idleOps : List (Op smallConfig) :=
  [.registerAsCandidate (.signed 1), .registerAsCandidate (.signed 2), .leaveIntent (.signed 1),
    .nextBlock, .registerAsCandidate (.signed 1), .noteAuthor 1, .nextBlock, .nextBlock,
    .nextBlock, .noteAuthor 2]

/-- The registration of block 1 is the last one, and is what the kick goes by. -/
theorem inactive_of_kicked_sample :
    (∀ e ∈ history apply smallGenesis idleOps, e.op = .noteAuthor 1 → e.pre.blockNumber + 2 ≤ 4) ∧
      (∃ (before : List (PastEvent smallConfig)) (e : PastEvent smallConfig)
        (later : List (PastEvent smallConfig)),
        history apply smallGenesis idleOps = before ++ e :: later ∧
        e.op = .registerAsCandidate (.signed 1) ∧ e.Succeeded ∧
        (∀ e' ∈ later, e'.op = .registerAsCandidate (.signed 1) → ¬e'.Succeeded) ∧
        e.pre.blockNumber + 2 ≤ 4) ∧
      ∃ s', apply (.newSession 0) (run apply smallGenesis idleOps) =
        .ok (.collators (some [7, 2]), s') ∧ 1 ∉ s'.accounts := by
  have hok : ∃ s', apply (.newSession 0) (run apply smallGenesis idleOps) =
      .ok (.collators (some [7, 2]), s') ∧ s'.accounts = [2] := ⟨_, rfl, rfl⟩
  obtain ⟨s', hok, haccounts⟩ := hok
  have hgone : 1 ∉ s'.accounts := by rw [haccounts]; decide
  obtain ⟨_, hauthored, before, e, later, hsplit, hop, hsucceeded, hlatest, hago, _⟩ :=
    inactive_of_kicked smallGenesis_build (s := run apply smallGenesis idleOps) rfl hok (a := 1)
      (by decide) hgone
  have hblock : (run apply smallGenesis idleOps).blockNumber = 4 := by decide
  rw [hblock] at hauthored hago
  exact ⟨hauthored, ⟨before, e, later, hsplit, hop, hsucceeded, hlatest, hago⟩, s', hok, hgone⟩

end Paraxiom.CollatorSelection
