import Paraxiom.Spec.CollatorSets

/-!
# Bonds and rewards

The pallet moves funds in two ways. Bonds go from the free balance of a candidate to its
reserve and back, and `bonds_accounted` says that over a whole run nothing gets lost between
the two: what is recorded as a bond is what is missing from the free balance and what is
added to the reserve. Rewards halve what the pot has above the existential deposit, so that
the pot never dies of them, and `pot_after_rewards` says how much is left after any number
of blocks.
-/

namespace Paraxiom.CollatorSelection

open Transactional

variable {AccountId : Type} [DecidableEq AccountId] {cfg : Config AccountId}

/-- The free balance of an account. -/
def State.free (s : State cfg) (a : AccountId) : Nat := cfg.currency.freeBalance s.balances a

/-- The reserved balance of an account. -/
def State.reserved (s : State cfg) (a : AccountId) : Nat :=
  cfg.currency.reservedBalance s.balances a

/-- What is recorded as the deposit of an account. -/
def State.bond (s : State cfg) (a : AccountId) : Nat :=
  (s.candidates.toList.map fun c => amountAt c.who c.deposit a).sum

/-! ## Bonds -/

/-- The recorded bonds are reserved. -/
def State.Backed (s : State cfg) : Prop := ∀ a, s.bond a ≤ s.reserved a

/-- Between the two states bonds moved, and nothing else did. -/
def BondsMoved (s s' : State cfg) : Prop :=
  ∀ a, s'.free a + s'.bond a = s.free a + s.bond a ∧
    s'.reserved a + s.bond a = s.reserved a + s'.bond a

/-- Nothing moved. -/
theorem BondsMoved.refl (s : State cfg) : BondsMoved s s := fun _ => ⟨rfl, rfl⟩

/-- What moved in two steps. -/
theorem BondsMoved.trans {s t u : State cfg} (h : BondsMoved s t) (h' : BondsMoved t u) :
    BondsMoved s u := by
  intro a
  obtain ⟨hfree, hreserved⟩ := h a
  obtain ⟨hfree', hreserved'⟩ := h' a
  omega

/-- Reserves that cover the bonds still do when both have moved alike. -/
theorem BondsMoved.backed {s s' : State cfg} (h : BondsMoved s s') (hs : s.Backed) :
    s'.Backed := by
  intro a
  have hreserved := (h a).2
  have hle := hs a
  omega

/-- A new candidate adds its own deposit. -/
theorem bond_append_singleton {s s' : State cfg} {c : CandidateInfo AccountId}
    (h : s'.candidates.toList = s.candidates.toList ++ [c]) (a : AccountId) :
    s'.bond a = s.bond a + amountAt c.who c.deposit a := by
  unfold State.bond
  rw [h, List.map_append, List.sum_append]
  rfl

/-- A candidate that is removed gets its bond back, if it is reserved. -/
theorem Removes.bondsMoved {c : CandidateInfo AccountId} {s s' : State cfg} (h : Removes c s s')
    (hs : s.Backed) : BondsMoved s s' := by
  obtain ⟨before, after, rest, hsplit, _, hrest, rfl⟩ := h
  -- the sum of the bonds loses one summand
  have hbond : ∀ a, s.bond a = (s.without c rest).bond a + amountAt c.who c.deposit a := by
    intro a
    show (s.candidates.toList.map _).sum = (rest.toList.map _).sum + _
    rw [hsplit, hrest, List.map_append, List.map_append, List.map_cons, List.sum_append,
      List.sum_append, List.sum_cons]
    omega
  -- so the deposit is reserved in full, and all of it comes back
  have hle : c.deposit ≤ s.reserved c.who := by
    have hbacked := hs c.who
    rw [hbond, amountAt_self] at hbacked
    exact Nat.le_trans (Nat.le_add_left ..) hbacked
  intro a
  obtain ⟨hfree, hreserved⟩ := cfg.currency.unreserve_of_le hle a
  have hbond := hbond a
  unfold State.free State.reserved
  show cfg.currency.freeBalance (cfg.currency.unreserve ..) a + _ = _ ∧
    cfg.currency.reservedBalance (cfg.currency.unreserve ..) a + _ = _
  omega

/-- Kicked candidates get back their bonds, and no more. -/
theorem Kicks.bondsMoved {s s' : State cfg} (h : Kicks s s') (hs : s.Backed) :
    BondsMoved s s' := by
  induction h with
  | refl => exact .refl s
  | tail _ hkick ih =>
    -- what is left is backed still, so the next removal pays out in full too
    obtain ⟨c, _, _, hremoves⟩ := hkick
    exact ih.trans (hremoves.bondsMoved (ih.backed hs))

/-- What comes to the free balance of `a` from elsewhere: a reward, which the pot pays, or
    whatever the other pallets do. -/
def income (a : AccountId) (s : State cfg) : Op cfg → Int
  | .noteAuthor author =>
    match cfg.currency.transfer cfg.potAccount author s.reward s.balances with
    | .ok _ => amountAt author s.reward a - amountAt cfg.potAccount s.reward a
    | .error _ => 0
  | .elsewhere balances _ => cfg.currency.freeBalance balances a - s.free a
  | _ => 0

/-- What comes to the reserve of `a` from elsewhere. -/
def reserveIncome (a : AccountId) (s : State cfg) : Op cfg → Int
  | .elsewhere balances _ => cfg.currency.reservedBalance balances a - s.reserved a
  | _ => 0

/-- The other pallets leave the recorded bonds in the reserves. -/
def KeepsBonds (s : State cfg) : Op cfg → Prop
  | .elsewhere balances _ => ∀ a, s.bond a ≤ cfg.currency.reservedBalance balances a
  | _ => True

/-- The reward goes from the pot to the author. -/
theorem income_of_rewarded {author : AccountId} {s : State cfg} {balances : cfg.currency.Balances}
    (h : cfg.currency.transfer cfg.potAccount author s.reward s.balances = .ok balances)
    (a : AccountId) : income a s (.noteAuthor author) =
      amountAt author s.reward a - amountAt cfg.potAccount s.reward a := by
  simp only [income, h]

/-- A transfer that fails moves nothing. -/
theorem income_of_unrewarded {author : AccountId} {s : State cfg} {e : cfg.currency.Error}
    (h : cfg.currency.transfer cfg.potAccount author s.reward s.balances = .error e)
    (a : AccountId) : income a s (.noteAuthor author) = 0 := by
  simp only [income, h]

/-- The two states differ by bonds that moved and by what came from elsewhere. -/
def Accounted (s : State cfg) (op : Op cfg) (s' : State cfg) : Prop :=
  ∀ a, (s'.free a + s'.bond a : Int) = s.free a + s.bond a + income a s op ∧
    (s'.reserved a + s.bond a : Int) = s.reserved a + s'.bond a + reserveIncome a s op

/-- Bonds that move and nothing else are in the books. -/
theorem BondsMoved.accounted {s s' : State cfg} {op : Op cfg} (h : BondsMoved s s')
    (hincome : ∀ a, income a s op = 0) (hreserve : ∀ a, reserveIncome a s op = 0) :
    Accounted s op s' := by
  intro a
  obtain ⟨hfree, hreserved⟩ := h a
  have hincome := hincome a
  have hreserve := hreserve a
  omega

/-- A registration moves the bond of the new candidate. -/
theorem bondsMoved_of_reserve {s s' : State cfg} {who : AccountId}
    (hreserve : cfg.currency.reserve who s.candidacyBond s.balances = .ok s'.balances)
    (hcands : s'.candidates.toList = s.candidates.toList ++ [⟨who, s.candidacyBond⟩]) :
    BondsMoved s s' := by
  intro a
  have hfree := cfg.currency.free_reserve hreserve a
  have hreserved := cfg.currency.reserved_reserve hreserve a
  have hbond : s'.bond a = s.bond a + amountAt who s.candidacyBond a :=
    bond_append_singleton hcands a
  unfold State.free State.reserved
  omega

/-- The books of one call. -/
theorem accounted_of_accepted {s s' : State cfg} {op : Op cfg} (h : Accepted s op s')
    (hkeeps : KeepsBonds s op) (hs : s.Backed) : s'.Backed ∧ Accounted s op s' := by
  cases h with
  | setInvulnerables | setDesiredCandidates | setCandidacyBond | nextBlock =>
    exact ⟨hs, (BondsMoved.refl s).accounted (fun _ => rfl) fun _ => rfl⟩
  | registerAsCandidate _ _ _ _ hreserve hcands =>
    have hmoved : BondsMoved s { s with candidates := _, balances := _ } :=
      bondsMoved_of_reserve hreserve hcands
    exact ⟨hmoved.backed hs, hmoved.accounted (fun _ => rfl) fun _ => rfl⟩
  | leaveIntent _ hremoves =>
    have hmoved := hremoves.bondsMoved hs
    exact ⟨hmoved.backed hs, hmoved.accounted (fun _ => rfl) fun _ => rfl⟩
  | newSession hkicks =>
    have hmoved := hkicks.bondsMoved hs
    exact ⟨hmoved.backed hs, hmoved.accounted (fun _ => rfl) fun _ => rfl⟩
  | @rewarded author balances htransfer =>
    -- a transfer moves free balances, and leaves the reserves and the bonds
    have hreserved := cfg.currency.reserved_transfer htransfer
    refine ⟨fun a => ?_, fun a => ⟨?_, ?_⟩⟩
    · exact Nat.le_trans (hs a) (Nat.le_of_eq (hreserved a).symm)
    · have hfree := cfg.currency.free_transfer htransfer a
      rw [income_of_rewarded htransfer]
      show (cfg.currency.freeBalance balances a + s.bond a : Int) =
        cfg.currency.freeBalance s.balances a + s.bond a + _
      omega
    · show (cfg.currency.reservedBalance balances a + s.bond a : Int) =
        cfg.currency.reservedBalance s.balances a + s.bond a + 0
      rw [hreserved, Int.add_zero]
  | unrewarded htransfer =>
    exact ⟨hs, (BondsMoved.refl s).accounted (income_of_unrewarded htransfer) fun _ => rfl⟩
  | @elsewhere balances isRegistered =>
    -- whatever the other pallets do counts as income
    refine ⟨hkeeps, fun a => ⟨?_, ?_⟩⟩
    · show (cfg.currency.freeBalance balances a + s.bond a : Int) =
        s.free a + s.bond a + (cfg.currency.freeBalance balances a - s.free a)
      omega
    · show (cfg.currency.reservedBalance balances a + s.bond a : Int) =
        s.reserved a + s.bond a + (cfg.currency.reservedBalance balances a - s.reserved a)
      omega

/-- The books of one step, which may fail. -/
theorem accounted_step {s : State cfg} {op : Op cfg} (hkeeps : KeepsBonds s op) (hs : s.Backed) :
    (step apply s op).Backed ∧ Accounted s op (step apply s op) := by
  cases hok : apply op s with
  | ok p =>
    obtain ⟨a, s'⟩ := p
    rw [step_of_ok hok]
    exact accounted_of_accepted (accepted_of_apply hok) hkeeps hs
  | error f =>
    rw [step_of_error hok]
    refine ⟨hs, ?_⟩
    -- the two operations with an income do not fail
    cases op with
    | noteAuthor | elsewhere => exact nomatch hok
    | _ => exact (BondsMoved.refl s).accounted (fun _ => rfl) fun _ => rfl

/-- In a run from genesis in which the other pallets leave the recorded bonds reserved, an
    account's free balance is short of exactly its recorded bond, and its reserve has exactly
    its recorded bond more, whatever bonds were set, taken and given back in between. -/
theorem bonds_accounted {genesis : GenesisConfig AccountId} {balances : cfg.currency.Balances}
    {isRegistered : cfg.ValidatorId → Bool} {s₀ : State cfg}
    (hbuild : genesis.build balances isRegistered = .ok s₀) (ops : List (Op cfg))
    (hkeeps : ∀ e ∈ history apply s₀ ops, KeepsBonds e.pre e.op) (a : AccountId) :
    let s := run apply s₀ ops
    s.bond a ≤ s.reserved a ∧
      (s.free a + s.bond a : Int) =
        s₀.free a + ((history apply s₀ ops).map fun e => income a e.pre e.op).sum ∧
      (s.reserved a : Int) = s₀.reserved a + s.bond a +
        ((history apply s₀ ops).map fun e => reserveIncome a e.pre e.op).sum := by
  have hinit : ∀ a, s₀.bond a = 0 := by
    obtain ⟨_, _, _, heq⟩ := build_eq_ok hbuild
    rw [heq]
    exact fun a => rfl
  -- along the run: the bonds are backed, and the books are right of everything that came in
  have hall := history_induction (G := fun e => KeepsBonds e.pre e.op)
    (P := fun past s => s.Backed ∧
      (s.free a + s.bond a : Int) = s₀.free a + (past.map fun e => income a e.pre e.op).sum ∧
      (s.reserved a : Int) = s₀.reserved a + s.bond a +
        (past.map fun e => reserveIncome a e.pre e.op).sum)
    ⟨fun a => by rw [hinit]; exact Nat.zero_le _, by simp [hinit], by simp [hinit]⟩
    (fun past s op hgood ⟨hs, hfree, hreserved⟩ => ?_) ops hkeeps
  · rw [List.map_append, List.map_append, List.sum_append, List.sum_append, List.map_singleton,
      List.map_singleton, List.sum_singleton, List.sum_singleton]
    have hgood : KeepsBonds s op := hgood
    obtain ⟨hs', haccounted⟩ := accounted_step hgood hs
    obtain ⟨hfree', hreserved'⟩ := haccounted a
    refine ⟨hs', ?_, ?_⟩
    · rw [hfree', hfree, event_pre, event_op, Int.add_assoc]
    · rw [event_pre, event_op]
      omega
  · exact ⟨hall.1 a, hall.2⟩

/-- Account 1 registers, the bond is raised, and it leaves once there is a second candidate. -/
private def bondOps : List (Op smallConfig) :=
  [.registerAsCandidate (.signed 1), .setCandidacyBond .root 50, .noteAuthor 1,
    .registerAsCandidate (.signed 2), .leaveIntent (.signed 1)]

/-- It gets back the bond of the time, and has earned half of the pot on the way. -/
theorem bonds_accounted_sample :
    let s := run apply smallGenesis bondOps
    s.bond 1 = 0 ∧ (s.free 1 : Int) = 100 + 49 ∧ s.bond 2 = 50 ∧ (s.free 2 : Int) = 100 - 50 ∧
      (s.reserved 2 : Int) = 50 := by
  have hkeeps : ∀ e ∈ history apply smallGenesis bondOps, KeepsBonds e.pre e.op := by
    simp [bondOps, KeepsBonds]
  have hbond : (run apply smallGenesis bondOps).bond 1 = 0 ∧
      (run apply smallGenesis bondOps).bond 2 = 50 := by decide
  obtain ⟨_, hfree₁, _⟩ := bonds_accounted smallGenesis_build bondOps hkeeps 1
  obtain ⟨_, hfree₂, hreserved₂⟩ := bonds_accounted smallGenesis_build bondOps hkeeps 2
  rw [hbond.1] at hfree₁
  rw [hbond.2] at hfree₂ hreserved₂
  refine ⟨hbond.1, ?_, hbond.2, ?_, hreserved₂⟩
  · exact (Int.add_zero _).symm.trans hfree₁
  · exact eq_sub_of_add_eq hfree₂

/-! ## The pot -/

/-- The author of a block is paid. -/
def PaysReward (s : State cfg) : Op cfg → Bool
  | .noteAuthor author =>
    (cfg.currency.transfer cfg.potAccount author s.reward s.balances).isOk
  | _ => false

/-- The pot does not act, and the other pallets neither fill nor empty it. -/
def LeavesPot (s : State cfg) : Op cfg → Prop
  | .elsewhere balances _ =>
    cfg.currency.freeBalance balances cfg.potAccount = s.free cfg.potAccount
  | .noteAuthor author => author ≠ cfg.potAccount
  | .registerAsCandidate origin => origin ≠ .signed cfg.potAccount
  | _ => True

/-- Half of the rest, rounded up, is what is left. -/
theorem ceilDiv_two_pow_sub_half (n k : Nat) :
    n ⌈/⌉ 2 ^ k - n ⌈/⌉ 2 ^ k / 2 = n ⌈/⌉ 2 ^ (k + 1) := by
  have hpow : 0 < 2 ^ k := Nat.two_pow_pos k
  rw [Nat.ceilDiv_eq_add_pred_div, Nat.ceilDiv_eq_add_pred_div]
  have hhalf : ∀ m : Nat, m - m / 2 = (m + 1) / 2 := by omega
  rw [hhalf, Nat.pow_succ, ← Nat.add_div_right _ hpow, Nat.div_div_eq_div_mul]
  congr 1
  omega

/-- The pot is no candidate and has `n` above `least`, which is the existential deposit unless
    nothing is above it. -/
structure PotHolds (least n : Nat) (s : State cfg) : Prop where
  notCandidate : cfg.potAccount ∉ s.accounts
  free_eq : s.free cfg.potAccount = least + n
  least_le : least ≤ cfg.currency.minimumBalance
  least_eq : n = 0 ∨ least = cfg.currency.minimumBalance

namespace PotHolds

variable {least n : Nat} {s s' : State cfg}

/-- The reward is half of what is above the existential deposit. -/
theorem reward_eq (h : PotHolds least n s) : s.reward = n / 2 := by
  obtain ⟨_, hfree, hle, rfl | rfl⟩ := h
  · unfold State.reward
    rw [show cfg.currency.freeBalance s.balances cfg.potAccount = least from hfree,
      Nat.sub_eq_zero_of_le hle]
  · unfold State.reward
    rw [show cfg.currency.freeBalance s.balances cfg.potAccount = _ from hfree,
      Nat.add_sub_cancel_left]

/-- Only the free balance of the pot counts, and that it has no bond. -/
theorem congr (h : PotHolds least n s) (hcands : cfg.potAccount ∉ s'.accounts)
    (hfree : s'.free cfg.potAccount = s.free cfg.potAccount) : PotHolds least n s' :=
  ⟨hcands, hfree.trans h.free_eq, h.least_le, h.least_eq⟩

/-- A removal pays out a bond, and not from the pot. -/
theorem removes {c : CandidateInfo AccountId} (h : PotHolds least n s) (hremoves : Removes c s s') :
    PotHolds least n s' := by
  refine h.congr (fun hmem => h.notCandidate ((hremoves.sublist.map _).subset hmem)) ?_
  obtain ⟨before, after, rest, hsplit, _, _, rfl⟩ := hremoves
  -- the bond goes to a candidate, which the pot is not
  have hne : cfg.potAccount ≠ c.who := by
    intro heq
    refine h.notCandidate (List.mem_map.mpr ⟨c, ?_, heq.symm⟩)
    rw [hsplit]
    exact List.mem_append_cons_self
  exact (cfg.currency.free_unreserve ..).trans (by rw [amountAt_of_ne hne]; rfl)

/-- And so do any number of them. -/
theorem kicks (h : PotHolds least n s) (hkicks : Kicks s s') : PotHolds least n s' := by
  induction hkicks with
  | refl => exact h
  | tail _ hkick ih =>
    obtain ⟨c, _, _, hremoves⟩ := hkick
    exact ih.removes hremoves

/-- Every operation leaves the pot as it is, except for a reward. -/
theorem of_accepted {op : Op cfg} (h : PotHolds least n s) (haccepted : Accepted s op s')
    (hleaves : LeavesPot s op) :
    PotHolds least (if PaysReward s op then n - n / 2 else n) s' := by
  cases haccepted with
  | setInvulnerables | setDesiredCandidates | setCandidacyBond | nextBlock =>
    exact h.congr h.notCandidate rfl
  | @registerAsCandidate who balances candidates _ _ _ _ hreserve hcands =>
    -- the pot neither registers nor pays for who does
    have hne : cfg.potAccount ≠ who := fun heq => hleaves (congrArg _ heq.symm)
    refine h.congr ?_ ?_
    · show cfg.potAccount ∉ candidates.toList.map (·.who)
      rw [hcands, List.map_append, List.mem_append, not_or]
      exact ⟨h.notCandidate, fun hmem => hne (List.mem_singleton.mp hmem)⟩
    · have hfree := cfg.currency.free_reserve hreserve cfg.potAccount
      rw [amountAt_of_ne hne] at hfree
      exact hfree
  | leaveIntent _ hremoves => exact h.removes hremoves
  | newSession hkicks => exact h.kicks hkicks
  | @rewarded author balances htransfer =>
    have hpays : PaysReward s (.noteAuthor author) = true := by
      simp only [PaysReward, htransfer]
      rfl
    have hfree := cfg.currency.free_transfer htransfer cfg.potAccount
    -- the author is another account, so the pot is short of the whole reward
    rw [amountAt_self, amountAt_of_ne (Ne.symm hleaves), h.reward_eq] at hfree
    have hpot : cfg.currency.freeBalance s.balances cfg.potAccount = least + n := h.free_eq
    rw [if_pos hpays]
    refine ⟨h.notCandidate, ?_, h.least_le, h.least_eq.imp_left (fun h0 => by rw [h0])⟩
    show cfg.currency.freeBalance balances cfg.potAccount = _
    omega
  | @unrewarded author e htransfer =>
    have hpays : ¬PaysReward s (.noteAuthor author) = true := by
      simp only [PaysReward, htransfer]
      exact Bool.false_ne_true
    rw [if_neg hpays]
    exact h.congr h.notCandidate rfl
  | elsewhere => exact h.congr h.notCandidate hleaves

end PotHolds

/-- What is left in the pot after a run in which it is neither used nor filled: the existential
    deposit, or what it had if that was less, and above it what it had there, halved and rounded
    up for every reward that was paid. -/
theorem pot_after_rewards {genesis : GenesisConfig AccountId} {balances : cfg.currency.Balances}
    {isRegistered : cfg.ValidatorId → Bool} {s₀ : State cfg}
    (hbuild : genesis.build balances isRegistered = .ok s₀) (ops : List (Op cfg))
    (hleaves : ∀ e ∈ history apply s₀ ops, LeavesPot e.pre e.op) :
    (run apply s₀ ops).free cfg.potAccount =
      min (s₀.free cfg.potAccount) cfg.currency.minimumBalance +
        (s₀.free cfg.potAccount - cfg.currency.minimumBalance) ⌈/⌉
          2 ^ ((history apply s₀ ops).countP fun e => PaysReward e.pre e.op) := by
  have hinit : PotHolds (min (s₀.free cfg.potAccount) cfg.currency.minimumBalance)
      (s₀.free cfg.potAccount - cfg.currency.minimumBalance) s₀ := by
    refine ⟨?_, by omega, Nat.min_le_right .., by omega⟩
    obtain ⟨_, _, _, heq⟩ := build_eq_ok hbuild
    rw [heq]
    exact List.not_mem_nil
  -- along the run: what is above the deposit is halved once for every reward so far
  have hall := history_induction (G := fun e => LeavesPot e.pre e.op)
    (P := fun past s => PotHolds (min (s₀.free cfg.potAccount) cfg.currency.minimumBalance)
      ((s₀.free cfg.potAccount - cfg.currency.minimumBalance) ⌈/⌉
        2 ^ (past.countP fun e => PaysReward e.pre e.op)) s)
    (by simpa using hinit) (fun past s op hgood hs => ?_) ops hleaves
  · exact hall.free_eq
  · rw [List.countP_append, List.countP_singleton, event_pre, event_op]
    cases hok : apply op s with
    | error f =>
      -- a block that is authored does not fail, and no other operation pays
      have hpays : PaysReward s op = false := by
        cases op with
        | noteAuthor => exact nomatch hok
        | _ => rfl
      rw [step_of_error hok, hpays]
      exact hs
    | ok p =>
      obtain ⟨a, s'⟩ := p
      rw [step_of_ok hok]
      have hs' := hs.of_accepted (accepted_of_apply hok) hgood
      split at hs'
      · rename_i hpays
        rw [if_pos hpays, ← ceilDiv_two_pow_sub_half]
        exact hs'
      · rename_i hpays
        rw [if_neg hpays]
        exact hs'

/-- Seven above the existential deposit are four after one block and two after two. -/
theorem pot_after_rewards_sample :
    (run apply { smallGenesis with balances := fun a => (if a = 9 then 8 else 100, 0) }
      [.noteAuthor 1, .nextBlock, .noteAuthor 2]).free 9 = 1 + 2 := by
  have hbuild : (⟨[7], 10, 2⟩ : GenesisConfig Nat).build
      (fun a => (if a = 9 then 8 else 100, 0)) (fun _ => true) =
        .ok { smallGenesis with balances := fun a => (if a = 9 then 8 else 100, 0) } := rfl
  have hpot := pot_after_rewards hbuild
    [.noteAuthor 1, .nextBlock, .noteAuthor 2] (by
      rw [history_cons, history_cons, history_cons, history_nil]
      rintro e (_ | ⟨_, _ | ⟨_, _ | ⟨_, ⟨⟩⟩⟩⟩)
      · exact Nat.ne_of_beq_eq_false rfl
      · exact trivial
      · exact Nat.ne_of_beq_eq_false rfl)
  exact hpot.trans (by decide)

end Paraxiom.CollatorSelection
