import Paraxiom.ForStd.Transactional
import Paraxiom.Pallets.CollatorSelection

/-!
# What the functions of the collator selection do

One lemma for each function of the pallet, and from them `accepted_of_apply`: an operation
that succeeds has met its guards and has the effect of its constructor of `Accepted`. The
invariants of the pallet are shown by cases on `Accepted`, and nothing below unfolds a call
again.

A session removes candidates one after the other. `Kicks` is the sequence of these removals.
-/

namespace Paraxiom.CollatorSelection

variable {AccountId : Type} [DecidableEq AccountId] {cfg : Config AccountId}

/-! ## Guards -/

/-- Only a signed origin passes. -/
theorem ensureSigned_eq_ok {origin : Origin AccountId} {who : AccountId} :
    (ensureSigned origin : Exec (DispatchError cfg) AccountId) = .ok who ↔
      origin = .signed who := by
  rw [ensureSigned, Exec.mapErr_eq_ok, Paraxiom.ensureSigned_eq_ok]

/-- Only the origin of the configuration passes. -/
theorem ensureUpdateOrigin_eq_ok {origin : Origin AccountId} {u : Unit} :
    (ensureUpdateOrigin origin : Exec (DispatchError cfg) Unit) = .ok u ↔
      cfg.updateOrigin origin = true := ensure_eq_ok

/-- The account has a validator id with registered keys. -/
def HasKeys (accountId : AccountId) (s : State cfg) : Prop :=
  ∃ key, cfg.validatorIdOf accountId = some key ∧ s.isRegistered key = true

/-- Only who has session keys passes. -/
theorem ensureRegistered_eq_ok {accountId : AccountId} {s : State cfg} {u : Unit} :
    ensureRegistered accountId s = .ok u ↔ HasKeys accountId s := by
  unfold ensureRegistered HasKeys
  simp only [Exec.bind_eq_ok, okOr_eq_ok, ensure_eq_ok]

/-- The accounts all have session keys, or the check fails. -/
theorem forM_ensureRegistered_eq_ok {accounts : List AccountId} {s : State cfg} {u : PUnit} :
    (accounts.forM fun accountId => ensureRegistered accountId s) = .ok u ↔
      ∀ accountId ∈ accounts, HasKeys accountId s := by
  induction accounts with
  | nil => simp [pure, Except.pure]
  | cons a accounts ih =>
    rw [show (a :: accounts).forM (fun accountId => ensureRegistered accountId s) =
      (ensureRegistered a s >>= fun _ =>
        accounts.forM fun accountId => ensureRegistered accountId s)
      from rfl, Exec.bind_eq_ok, List.forall_mem_cons]
    constructor
    · rintro ⟨_, ha, hrest⟩
      exact ⟨ensureRegistered_eq_ok.mp ha, ih.mp hrest⟩
    · rintro ⟨ha, hrest⟩
      exact ⟨(), ensureRegistered_eq_ok.mpr ha, ih.mpr hrest⟩

/-- The number of candidates is below `2 ^ 32`: as a `u32` it is itself. -/
theorem toNat_ofNat_length (s : State cfg) :
    (UInt32.ofNat s.candidates.length).toNat = s.candidates.length :=
  UInt32.toNat_ofNat_of_lt'
    (Nat.lt_of_le_of_lt s.candidates.length_le cfg.maxCandidates.toNat_lt)

/-- The number of candidates fits, and is compared as it is. -/
theorem ofNat_length_lt_iff {s : State cfg} {n : UInt32} :
    UInt32.ofNat s.candidates.length < n ↔ s.candidates.length < n.toNat := by
  rw [UInt32.lt_iff_toNat_lt, toNat_ofNat_length]

/-- And so on the other side. -/
theorem lt_ofNat_length_iff {s : State cfg} {n : UInt32} :
    n < UInt32.ofNat s.candidates.length ↔ n.toNat < s.candidates.length := by
  rw [UInt32.lt_iff_toNat_lt, toNat_ofNat_length]

/-! ## Removing a candidate -/

/-- The state after `c` is removed and `rest` are the candidates left. -/
def State.without (s : State cfg) (c : CandidateInfo AccountId)
    (rest : BoundedList (CandidateInfo AccountId) cfg.maxCandidates.toNat) : State cfg :=
  { s with
    candidates := rest
    lastAuthoredBlock := Function.update s.lastAuthoredBlock c.who 0
    events := s.events ++ [.candidateRemoved c.who]
    balances := cfg.currency.unreserve c.who c.deposit s.balances }

/-- `c` is the first candidate of its account in `s`, and `s'` is `s` without it. -/
def Removes (c : CandidateInfo AccountId) (s s' : State cfg) : Prop :=
  ∃ before after rest, s.candidates.toList = before ++ c :: after ∧
    c.who ∉ before.map (·.who) ∧ rest.toList = before ++ after ∧ s' = s.without c rest

private theorem findIdx?_split {candidates before after : List (CandidateInfo AccountId)}
    {c : CandidateInfo AccountId} (hsplit : candidates = before ++ c :: after)
    (hfirst : c.who ∉ before.map (·.who)) :
    candidates.findIdx? (fun candidate => candidate.who = c.who) = some before.length := by
  have hnone : before.findIdx? (fun candidate => candidate.who = c.who) = none :=
    List.findIdx?_eq_none_iff.mpr fun a ha => by
      rw [decide_eq_false_iff_not]
      exact fun h => hfirst (List.mem_map.mpr ⟨a, ha, h⟩)
  rw [hsplit, List.findIdx?_append, hnone, List.findIdx?_cons, decide_eq_true rfl]
  simp

/-- A call that removes a candidate removes the first one of the account. -/
theorem tryRemoveCandidate_eq_ok {who : AccountId} {s s' : State cfg} {count : Nat} :
    tryRemoveCandidate who s = .ok (count, s') ↔
      ∃ c, c.who = who ∧ Removes c s s' ∧ count = s'.candidates.length := by
  unfold tryRemoveCandidate
  simp only [Exec.bind_eq_ok, okOr_eq_ok, expect_eq_ok, Exec.pure_eq_ok, Prod.mk.injEq]
  constructor
  · rintro ⟨i, hi, ⟨c, rest⟩, hremove, rfl, rfl⟩
    obtain ⟨hget, hrest⟩ := BoundedList.remove_eq_some.mp hremove
    obtain ⟨hlt, hwho, hbefore⟩ := List.findIdx?_eq_some_iff_getElem.mp hi
    obtain ⟨_, rfl⟩ := List.getElem?_eq_some_iff.mp hget
    have hwho := of_decide_eq_true hwho
    -- the list is split at the index that was found
    refine ⟨s.candidates.toList[i], hwho, ⟨s.candidates.toList.take i,
      s.candidates.toList.drop (i + 1), rest, ?_, ?_, ?_, ?_⟩, rfl⟩
    · rw [← List.drop_eq_getElem_cons hlt, List.take_append_drop]
    · -- before this index no entry is the account's
      intro hmem
      obtain ⟨a, ha, heq⟩ := List.mem_map.mp hmem
      obtain ⟨j, hj, rfl⟩ := List.mem_take_iff_getElem.mp ha
      exact hbefore j (Nat.lt_of_lt_of_le hj (Nat.min_le_left ..))
        (decide_eq_true (heq.trans hwho))
    · rw [hrest, List.eraseIdx_eq_take_drop_succ]
    · rw [State.without, hwho]
  · rintro ⟨c, rfl, ⟨before, after, rest, hsplit, hfirst, hrest, rfl⟩, rfl⟩
    refine ⟨before.length, findIdx?_split hsplit hfirst, (c, rest),
      BoundedList.remove_eq_some.mpr ⟨?_, ?_⟩, rfl, rfl⟩
    · rw [hsplit, List.getElem?_append_right (Nat.le_refl _), Nat.sub_self, List.getElem?_cons_zero]
    · rw [hrest, hsplit, List.eraseIdx_append_of_length_le (Nat.le_refl _), Nat.sub_self,
        List.eraseIdx_zero, List.tail_cons]

/-- A candidate that is there can be removed. -/
theorem exists_removes {who : AccountId} {s : State cfg}
    (h : who ∈ s.candidates.toList.map (·.who)) : ∃ c s', c.who = who ∧ Removes c s s' := by
  obtain ⟨before, after, hsplit, hfirst⟩ := List.eq_append_cons_of_mem h
  obtain ⟨before, rest, hcands, rfl, hrest⟩ := List.map_eq_append_iff.mp hsplit
  obtain ⟨c, after, rfl, rfl, rfl⟩ := List.map_eq_cons_iff.mp hrest
  have hle : (before ++ after).length ≤ cfg.maxCandidates.toNat := by
    have := s.candidates.length_le
    rw [hcands, List.length_append, List.length_cons] at this
    rw [List.length_append]
    omega
  exact ⟨c, _, rfl, before, after, ⟨before ++ after, hle⟩, hcands, hfirst, rfl, rfl⟩

/-- Removing a candidate does not panic, and fails only when there is none. -/
theorem tryRemoveCandidate_eq_error {who : AccountId} {s : State cfg}
    {f : Failure (DispatchError cfg)} (h : tryRemoveCandidate who s = .error f) :
    f = .err (.collatorSelection .notCandidate) ∧ who ∉ s.candidates.toList.map (·.who) := by
  by_cases hmem : who ∈ s.candidates.toList.map (·.who)
  · obtain ⟨c, s', hwho, hremoves⟩ := exists_removes hmem
    rw [tryRemoveCandidate_eq_ok.mpr ⟨c, hwho, hremoves, rfl⟩] at h
    exact nomatch h
  · have hnone : s.candidates.toList.findIdx? (fun candidate => candidate.who = who) = none :=
      List.findIdx?_eq_none_iff.mpr fun a ha => by
        rw [decide_eq_false_iff_not]
        exact fun heq => hmem (List.mem_map.mpr ⟨a, ha, heq⟩)
    unfold tryRemoveCandidate at h
    rw [hnone] at h
    exact ⟨(Except.error.inj h).symm, hmem⟩

/-- What removals leave alone. -/
structure SameSettings (s s' : State cfg) : Prop where
  invulnerables : s'.invulnerables = s.invulnerables
  desiredCandidates : s'.desiredCandidates = s.desiredCandidates
  candidacyBond : s'.candidacyBond = s.candidacyBond
  blockNumber : s'.blockNumber = s.blockNumber
  isRegistered : s'.isRegistered = s.isRegistered

namespace Removes

variable {c : CandidateInfo AccountId} {s s' : State cfg}

/-- A removal touches no setting. -/
theorem sameSettings (h : Removes c s s') : SameSettings s s' := by
  obtain ⟨before, after, rest, _, _, _, rfl⟩ := h
  exact ⟨rfl, rfl, rfl, rfl, rfl⟩

/-- The other candidates stay, in their order. -/
theorem sublist (h : Removes c s s') : s'.candidates.toList.Sublist s.candidates.toList := by
  obtain ⟨before, after, rest, hsplit, _, hrest, rfl⟩ := h
  rw [show (s.without c rest).candidates = rest from rfl, hrest, hsplit]
  exact (List.sublist_cons_self c after).append_left before

/-- There is one candidate less. -/
theorem length (h : Removes c s s') : s.candidates.length = s'.candidates.length + 1 := by
  obtain ⟨before, after, rest, hsplit, _, hrest, rfl⟩ := h
  show s.candidates.toList.length = rest.toList.length + 1
  rw [hsplit, hrest, List.length_append, List.length_append, List.length_cons]
  rfl

end Removes

/-! ## Sessions -/

/-- The account has not authored a block within the threshold. -/
def State.Stale (s : State cfg) (who : AccountId) : Prop :=
  cfg.kickThreshold ≤ s.blockNumber - s.lastAuthoredBlock who

instance (s : State cfg) (who : AccountId) : Decidable (s.Stale who) :=
  inferInstanceAs (Decidable (_ ≤ _))

/-- A stale candidate is removed while there are more candidates than needed. -/
def Kick (s s' : State cfg) : Prop :=
  ∃ c, s.Stale c.who ∧ cfg.minCandidates.toNat < s.candidates.length ∧ Removes c s s'

/-- The removals of a session, one after the other. -/
abbrev Kicks (s s' : State cfg) : Prop := Relation.ReflTransGen Kick s s'

namespace Kicks

variable {s s' : State cfg}

/-- No setting changes in a session. -/
theorem sameSettings (h : Kicks s s') : SameSettings s s' := by
  induction h with
  | refl => exact ⟨rfl, rfl, rfl, rfl, rfl⟩
  | tail _ hkick ih =>
    obtain ⟨c, _, _, hremoves⟩ := hkick
    obtain ⟨hinv, hdesired, hbond, hblock, hkeys⟩ := hremoves.sameSettings
    exact ⟨hinv.trans ih.1, hdesired.trans ih.2, hbond.trans ih.3, hblock.trans ih.4,
      hkeys.trans ih.5⟩

/-- Who is left of the candidates keeps its place. -/
theorem sublist (h : Kicks s s') : s'.candidates.toList.Sublist s.candidates.toList := by
  induction h with
  | refl => exact List.Sublist.refl _
  | tail _ hkick ih =>
    obtain ⟨c, _, _, hremoves⟩ := hkick
    exact hremoves.sublist.trans ih

end Kicks

/-- Who is not stale stays, and so does everybody when few are left. -/
theorem kickCandidate_of_kept {c : CandidateInfo AccountId} {s : State cfg}
    (h : ¬s.Stale c.who ∨ s.candidates.length ≤ cfg.minCandidates.toNat) :
    kickCandidate c s = .ok (some c.who, s) := by
  unfold kickCandidate
  refine if_pos (h.imp (fun hfresh => ?_) fun hmin => ?_)
  · unfold State.Stale at hfresh
    exact Nat.lt_of_not_le hfresh
  · rwa [UInt32.le_iff_toNat_le, toNat_ofNat_length]

private theorem not_kept_of_stale {who : AccountId} {s : State cfg} (hstale : s.Stale who)
    (hmin : cfg.minCandidates.toNat < s.candidates.length) :
    ¬(s.blockNumber - s.lastAuthoredBlock who < cfg.kickThreshold ∨
      UInt32.ofNat s.candidates.length ≤ cfg.minCandidates) := by
  rw [UInt32.le_iff_toNat_le, toNat_ofNat_length]
  exact not_or.mpr ⟨Nat.not_lt.mpr hstale, Nat.not_le.mpr hmin⟩

/-- The stale go. -/
theorem kickCandidate_of_kicked {c : CandidateInfo AccountId} {s s' : State cfg} {count : Nat}
    (hstale : s.Stale c.who) (hmin : cfg.minCandidates.toNat < s.candidates.length)
    (hok : tryRemoveCandidate c.who s = .ok (count, s')) :
    kickCandidate c s = .ok (none, s') := by
  unfold kickCandidate
  rw [if_neg (not_kept_of_stale hstale hmin), hok]

/-- A candidate is passed on and the state kept, or it is stale and its account removed if
    it is among the candidates. -/
theorem kickCandidate_cases (c : CandidateInfo AccountId) (s : State cfg) :
    ∃ who s', kickCandidate c s = .ok (who, s') ∧ (s' = s ∨ Kick s s') := by
  by_cases hkept : ¬s.Stale c.who ∨ s.candidates.length ≤ cfg.minCandidates.toNat
  · exact ⟨_, _, kickCandidate_of_kept hkept, .inl rfl⟩
  · obtain ⟨hstale, hmin⟩ := not_or.mp hkept
    have hstale := not_not.mp hstale
    have hmin := Nat.lt_of_not_le hmin
    cases hok : tryRemoveCandidate c.who s with
    | ok p =>
      obtain ⟨count, s'⟩ := p
      obtain ⟨c', hwho, hremoves, _⟩ := tryRemoveCandidate_eq_ok.mp hok
      exact ⟨_, _, kickCandidate_of_kicked hstale hmin hok,
        .inr ⟨c', hwho ▸ hstale, hmin, hremoves⟩⟩
    | error f =>
      -- a failing removal leaves the state as it is
      obtain ⟨rfl, _⟩ := tryRemoveCandidate_eq_error hok
      refine ⟨none, s, ?_, .inl rfl⟩
      unfold kickCandidate
      rw [if_neg (not_kept_of_stale hstale hmin), hok]

/-- A session starts in every state: its loop neither fails nor outgrows its vector. -/
theorem exists_newSession_eq_ok (index : UInt32) (s : State cfg) :
    ∃ kept s', newSession index s = .ok (some (s'.invulnerables.toList ++ kept), s') ∧
      Kicks s s' := by
  -- the loop from any point on: every candidate adds one collator at most
  have hloop : ∀ (cs : List (CandidateInfo AccountId)) (kept : List AccountId) (t : State cfg),
      ∃ kept' t', cs.foldlM kickOrKeep (kept, t) = .ok (kept', t') ∧
        kept'.length ≤ kept.length + cs.length ∧ Kicks t t' := by
    intro cs
    induction cs with
    | nil => exact fun kept t => ⟨kept, t, rfl, Nat.le_refl _, .refl⟩
    | cons c cs ih =>
      intro kept t
      obtain ⟨who, t₁, hok, hstep⟩ := kickCandidate_cases c t
      obtain ⟨kept', t', hrest, hlen, hkicks⟩ := ih (kept ++ who.toList) t₁
      refine ⟨kept', t', ?_, ?_, ?_⟩
      · rw [List.foldlM_cons]
        exact Exec.bind_eq_ok.mpr ⟨_, Exec.bind_eq_ok.mpr ⟨_, hok, rfl⟩, hrest⟩
      · have hwho : who.toList.length ≤ 1 := by cases who <;> simp
        rw [List.length_append] at hlen
        rw [List.length_cons]
        omega
      · rcases hstep with rfl | hkick
        · exact hkicks
        · exact .head hkick hkicks
  obtain ⟨kept, s', hok, hlen, hkicks⟩ := hloop s.candidates.toList [] s
  -- there are no more collators than there were candidates, which is what the `expect` needs
  have hle : kept.length ≤ cfg.maxCandidates.toNat :=
    Nat.le_trans hlen (by simpa using s.candidates.length_le)
  refine ⟨kept, s', ?_, hkicks⟩
  unfold newSession kickStaleCandidates
  refine Exec.bind_eq_ok.mpr ⟨(⟨kept, hle⟩, s'), Exec.bind_eq_ok.mpr ⟨_, hok, ?_⟩, rfl⟩
  exact Exec.bind_eq_ok.mpr ⟨_, expect_eq_ok.mpr (BoundedList.tryFrom_of_le hle), rfl⟩

/-! ## Operations -/

/-- What the author of a block is due: half of what the pot has above the minimum. -/
def State.reward (s : State cfg) : Nat :=
  (cfg.currency.freeBalance s.balances cfg.potAccount - cfg.currency.minimumBalance) / 2

/-- An operation that succeeds: its guards hold in `s`, and the state after it. -/
inductive Accepted (s : State cfg) : Op cfg → State cfg → Prop
  | setInvulnerables {origin : Origin AccountId} {new : List AccountId}
      {bounded : BoundedList AccountId cfg.maxInvulnerables.toNat} :
      cfg.updateOrigin origin = true → bounded.toList = new →
      (∀ accountId ∈ new, HasKeys accountId s) →
      Accepted s (.setInvulnerables origin new)
        { s with invulnerables := bounded, events := s.events ++ [.newInvulnerables new] }
  | setDesiredCandidates {origin : Origin AccountId} {max : UInt32} :
      cfg.updateOrigin origin = true →
      Accepted s (.setDesiredCandidates origin max)
        { s with desiredCandidates := max, events := s.events ++ [.newDesiredCandidates max] }
  | setCandidacyBond {origin : Origin AccountId} {bond : Nat} :
      cfg.updateOrigin origin = true →
      Accepted s (.setCandidacyBond origin bond)
        { s with candidacyBond := bond, events := s.events ++ [.newCandidacyBond bond] }
  | registerAsCandidate {who : AccountId} {balances : cfg.currency.Balances}
      {candidates : BoundedList (CandidateInfo AccountId) cfg.maxCandidates.toNat} :
      s.candidates.length < s.desiredCandidates.toNat → who ∉ s.invulnerables.toList →
      HasKeys who s → who ∉ s.candidates.toList.map (·.who) →
      cfg.currency.reserve who s.candidacyBond s.balances = .ok balances →
      candidates.toList = s.candidates.toList ++ [⟨who, s.candidacyBond⟩] →
      Accepted s (.registerAsCandidate (.signed who))
        { s with
          candidates
          lastAuthoredBlock :=
            Function.update s.lastAuthoredBlock who (s.blockNumber + cfg.kickThreshold)
          events := s.events ++ [.candidateAdded who s.candidacyBond]
          balances }
  | leaveIntent {c : CandidateInfo AccountId} {s' : State cfg} :
      cfg.minCandidates.toNat < s.candidates.length → Removes c s s' →
      Accepted s (.leaveIntent (.signed c.who)) s'
  | rewarded {author : AccountId} {balances : cfg.currency.Balances} :
      cfg.currency.transfer cfg.potAccount author s.reward s.balances = .ok balances →
      Accepted s (.noteAuthor author)
        { s with
          balances
          lastAuthoredBlock := Function.update s.lastAuthoredBlock author s.blockNumber }
  | unrewarded {author : AccountId} {e : cfg.currency.Error} :
      cfg.currency.transfer cfg.potAccount author s.reward s.balances = .error e →
      Accepted s (.noteAuthor author)
        { s with
          lastAuthoredBlock := Function.update s.lastAuthoredBlock author s.blockNumber }
  | newSession {index : UInt32} {s' : State cfg} :
      Kicks s s' → Accepted s (.newSession index) s'
  | nextBlock : Accepted s .nextBlock { s with blockNumber := s.blockNumber + 1 }
  | elsewhere {balances : cfg.currency.Balances} {isRegistered : cfg.ValidatorId → Bool} :
      Accepted s (.elsewhere balances isRegistered) { s with balances, isRegistered }

/-- What `set_invulnerables` did. -/
theorem setInvulnerables_accepted {origin : Origin AccountId} {new : List AccountId}
    {s s' : State cfg} (h : setInvulnerables origin new s = .ok s') :
    Accepted s (.setInvulnerables origin new) s' := by
  unfold setInvulnerables at h
  obtain ⟨_, horigin, h⟩ := Exec.bind_eq_ok.mp h
  obtain ⟨bounded, hbounded, h⟩ := Exec.bind_eq_ok.mp h
  obtain ⟨_, hkeys, h⟩ := Exec.bind_eq_ok.mp h
  obtain rfl := Exec.pure_eq_ok.mp h
  obtain rfl := BoundedList.tryFrom_eq_some.mp (okOr_eq_ok.mp hbounded)
  exact .setInvulnerables (ensureUpdateOrigin_eq_ok.mp horigin) rfl
    (forM_ensureRegistered_eq_ok.mp hkeys)

/-- What `register_as_candidate` did. -/
theorem registerAsCandidate_accepted {origin : Origin AccountId} {s s' : State cfg} {count : Nat}
    (h : registerAsCandidate origin s = .ok (count, s')) :
    Accepted s (.registerAsCandidate origin) s' := by
  unfold registerAsCandidate at h
  obtain ⟨who, hwho, h⟩ := Exec.bind_eq_ok.mp h
  obtain ⟨_, hlength, h⟩ := Exec.bind_eq_ok.mp h
  obtain ⟨_, hinv, h⟩ := Exec.bind_eq_ok.mp h
  obtain ⟨_, hkeys, h⟩ := Exec.bind_eq_ok.mp h
  obtain ⟨_, hnew, h⟩ := Exec.bind_eq_ok.mp h
  obtain ⟨balances, hreserve, h⟩ := Exec.bind_eq_ok.mp h
  obtain ⟨candidates, hpush, h⟩ := Exec.bind_eq_ok.mp h
  obtain ⟨_, rfl⟩ := Prod.mk.inj (Exec.pure_eq_ok.mp h)
  obtain rfl := ensureSigned_eq_ok.mp hwho
  -- the currency's own errors are wrapped
  have hreserve : cfg.currency.reserve who s.candidacyBond s.balances = .ok balances := by
    cases hr : cfg.currency.reserve who s.candidacyBond s.balances with
    | error e => rw [hr] at hreserve; exact nomatch hreserve
    | ok b => rw [hr] at hreserve; exact congrArg _ (Except.ok.inj hreserve)
  exact .registerAsCandidate (ofNat_length_lt_iff.mp (ensure_eq_ok.mp hlength))
    (ensure_eq_ok.mp hinv) (ensureRegistered_eq_ok.mp hkeys) (ensure_eq_ok.mp hnew) hreserve
    (BoundedList.tryPush_eq_some.mp (okOr_eq_ok.mp hpush))

/-- What `leave_intent` did. -/
theorem leaveIntent_accepted {origin : Origin AccountId} {s s' : State cfg} {count : Nat}
    (h : leaveIntent origin s = .ok (count, s')) : Accepted s (.leaveIntent origin) s' := by
  unfold leaveIntent at h
  obtain ⟨who, hwho, h⟩ := Exec.bind_eq_ok.mp h
  obtain ⟨_, hmin, h⟩ := Exec.bind_eq_ok.mp h
  obtain ⟨c, rfl, hremoves, _⟩ := tryRemoveCandidate_eq_ok.mp h
  obtain rfl := ensureSigned_eq_ok.mp hwho
  exact .leaveIntent (lt_ofNat_length_iff.mp (ensure_eq_ok.mp hmin)) hremoves

/-- What `note_author` did: a transfer that fails is ignored. -/
theorem noteAuthor_accepted (author : AccountId) (s : State cfg) :
    Accepted s (.noteAuthor author) (noteAuthor author s) := by
  unfold noteAuthor
  cases h : cfg.currency.transfer cfg.potAccount author s.reward s.balances with
  | ok balances =>
    have h' := h
    unfold State.reward at h'
    simp only [h']
    exact .rewarded h
  | error e =>
    have h' := h
    unfold State.reward at h'
    simp only [h']
    exact .unrewarded h

/-- An operation that succeeds is one of those of `Accepted`. -/
theorem accepted_of_apply {op : Op cfg} {s s' : State cfg} {a : Answer AccountId}
    (h : apply op s = .ok (a, s')) : Accepted s op s' := by
  cases op with
  | setInvulnerables origin new =>
    obtain ⟨_, hok, h⟩ := Exec.bind_eq_ok.mp h
    obtain ⟨_, rfl⟩ := Prod.mk.inj (Exec.pure_eq_ok.mp h)
    exact setInvulnerables_accepted hok
  | setDesiredCandidates origin max =>
    obtain ⟨_, hok, h⟩ := Exec.bind_eq_ok.mp h
    obtain ⟨_, rfl⟩ := Prod.mk.inj (Exec.pure_eq_ok.mp h)
    obtain ⟨_, horigin, hok⟩ := Exec.bind_eq_ok.mp hok
    obtain rfl := Exec.pure_eq_ok.mp hok
    exact .setDesiredCandidates (ensureUpdateOrigin_eq_ok.mp horigin)
  | setCandidacyBond origin bond =>
    obtain ⟨_, hok, h⟩ := Exec.bind_eq_ok.mp h
    obtain ⟨_, rfl⟩ := Prod.mk.inj (Exec.pure_eq_ok.mp h)
    obtain ⟨_, horigin, hok⟩ := Exec.bind_eq_ok.mp hok
    obtain rfl := Exec.pure_eq_ok.mp hok
    exact .setCandidacyBond (ensureUpdateOrigin_eq_ok.mp horigin)
  | registerAsCandidate origin =>
    obtain ⟨⟨_, _⟩, hok, h⟩ := Exec.bind_eq_ok.mp h
    obtain ⟨_, rfl⟩ := Prod.mk.inj (Exec.pure_eq_ok.mp h)
    exact registerAsCandidate_accepted hok
  | leaveIntent origin =>
    obtain ⟨⟨_, _⟩, hok, h⟩ := Exec.bind_eq_ok.mp h
    obtain ⟨_, rfl⟩ := Prod.mk.inj (Exec.pure_eq_ok.mp h)
    exact leaveIntent_accepted hok
  | noteAuthor author =>
    obtain ⟨_, rfl⟩ := Prod.mk.inj (Except.ok.inj h)
    exact noteAuthor_accepted author s
  | newSession index =>
    obtain ⟨⟨_, _⟩, hok, h⟩ := Exec.bind_eq_ok.mp h
    obtain ⟨_, rfl⟩ := Prod.mk.inj (Exec.pure_eq_ok.mp h)
    -- a session always starts, so this is the one that did
    obtain ⟨kept, t, hok', hkicks⟩ := exists_newSession_eq_ok index s
    rw [hok'] at hok
    obtain ⟨_, rfl⟩ := Prod.mk.inj (Except.ok.inj hok)
    exact .newSession hkicks
  | nextBlock =>
    obtain ⟨_, rfl⟩ := Prod.mk.inj (Except.ok.inj h)
    exact .nextBlock
  | elsewhere balances isRegistered =>
    obtain ⟨_, rfl⟩ := Prod.mk.inj (Except.ok.inj h)
    exact .elsewhere

/-! ## Runs -/

/-- A step changes nothing or is accepted. -/
theorem step_eq_or_accepted (s : State cfg) (op : Op cfg) :
    Transactional.step apply s op = s ∨ Accepted s op (Transactional.step apply s op) := by
  cases h : apply op s with
  | error f => exact .inl (Transactional.step_of_error h)
  | ok p =>
    obtain ⟨a, s'⟩ := p
    rw [Transactional.step_of_ok h]
    exact .inr (accepted_of_apply h)

/-- What every accepted operation preserves, every step preserves. -/
theorem step_invariant {I : State cfg → Prop} (h : ∀ s op s', Accepted s op s' → I s → I s')
    (s : State cfg) (op : Op cfg) (hI : I s) : I (Transactional.step apply s op) := by
  rcases step_eq_or_accepted s op with heq | haccepted
  · rwa [heq]
  · exact h s op _ haccepted hI

/-- What an event that succeeded did. -/
theorem accepted_of_mem_history {s : State cfg} {ops : List (Op cfg)}
    {e : Transactional.Event (State cfg) (Op cfg) (Failure (DispatchError cfg)) (Answer AccountId)}
    (he : e ∈ Transactional.history apply s ops) (h : e.Succeeded) :
    Accepted e.pre e.op e.post := by
  obtain ⟨before, op, after, _, rfl⟩ := Transactional.mem_history he
  obtain ⟨a, ha⟩ := h
  exact accepted_of_apply (Transactional.event_result_eq_ok.mp ha)

/-- A property that only the operations of `P` can break holds throughout a run if and only if
    it holds after each of these that succeeds. -/
theorem forall_post_iff_of_op {I : State cfg → Prop} {P : Op cfg → Prop}
    (hstep : ∀ s op s', Accepted s op s' → ¬P op → I s → I s') {s : State cfg} (h : I s)
    (ops : List (Op cfg)) :
    (∀ e ∈ Transactional.history apply s ops, I e.post) ↔
      ∀ e ∈ Transactional.history apply s ops, P e.op → e.Succeeded → I e.post := by
  refine (Transactional.forall_post_iff (B := fun e => P e.op ∧ e.Succeeded)
    (fun s op hB hI => ?_) h ops).trans (forall₂_congr fun e _ => and_imp)
  cases hok : apply op s with
  | error f => rwa [Transactional.step_of_error hok]
  | ok p =>
    rw [Transactional.step_of_ok hok]
    exact hstep s op _ (accepted_of_apply hok)
      (fun hop => hB ⟨hop, Transactional.event_succeeded hok⟩) hI

/-- A state that some run from a genesis leads to. -/
def Reachable (s : State cfg) : Prop :=
  ∃ (genesis : GenesisConfig AccountId) (balances : cfg.currency.Balances)
    (isRegistered : cfg.ValidatorId → Bool) (s₀ : State cfg) (ops : List (Op cfg)),
    genesis.build balances isRegistered = .ok s₀ ∧ s = Transactional.run apply s₀ ops

/-- At genesis the invulnerables are all different, there are no candidates, and no more of
    them can be desired than there is room for. -/
theorem build_eq_ok {genesis : GenesisConfig AccountId} {balances : cfg.currency.Balances}
    {isRegistered : cfg.ValidatorId → Bool} {s₀ : State cfg}
    (h : genesis.build balances isRegistered = .ok s₀) :
    s₀.invulnerables.toList = genesis.invulnerables ∧ genesis.invulnerables.Nodup ∧
      genesis.desiredCandidates ≤ cfg.maxCandidates ∧
      s₀ = ⟨s₀.invulnerables, .empty, fun _ => 0, genesis.desiredCandidates, genesis.candidacyBond,
        [], 0, balances, isRegistered⟩ := by
  unfold GenesisConfig.build assert at h
  obtain ⟨_, hset, h⟩ := Exec.bind_eq_ok.mp h
  obtain ⟨bounded, hbounded, h⟩ := Exec.bind_eq_ok.mp h
  obtain ⟨_, hdesired, h⟩ := Exec.bind_eq_ok.mp h
  obtain rfl := Exec.pure_eq_ok.mp h
  have hbounded := BoundedList.tryFrom_eq_some.mp (expect_eq_ok.mp hbounded)
  refine ⟨hbounded, ?_, ?_, rfl⟩
  · split at hset
    · rename_i hcard
      exact Multiset.toFinset_card_eq_card_iff_nodup.mp hcard
    · exact nomatch hset
  · split at hdesired
    · rename_i hle
      exact hle
    · exact nomatch hdesired

/-! ## A small chain -/

/-- Three candidates at most, one of whom always stays; accounts are their own validators, and
    account 9 is the pot. -/
def smallConfig : Config Nat where
  currency := ReservableCurrency.ledger Nat 1
  updateOrigin origin := origin = .root
  potAccount := 9
  maxCandidates := 3
  minCandidates := 1
  maxInvulnerables := 2
  kickThreshold := 2
  ValidatorId := Nat
  validatorIdOf := some

/-- Account 7 is invulnerable, two candidates are desired, and the bond is 10. -/
def smallGenesis : State smallConfig where
  invulnerables := ⟨[7], by decide⟩
  candidates := .empty
  lastAuthoredBlock := fun _ => 0
  desiredCandidates := 2
  candidacyBond := 10
  events := []
  blockNumber := 0
  balances := fun _ => (100, 0)
  isRegistered := fun _ => true

/-- The small chain starts from a genesis that is accepted. -/
theorem smallGenesis_build :
    (⟨[7], 10, 2⟩ : GenesisConfig Nat).build (fun _ => (100, 0)) (fun _ => true) =
      .ok smallGenesis := rfl

end Paraxiom.CollatorSelection
