import Paraxiom.ForStd.ProgramLoader
import Paraxiom.Pallets.XcmConfig

/-!
# What the barrier keeps out

The filter of the barrier looks at the instructions of a message, and not into the programs
that a message sets as its error handler or appendix. The executor runs these as part of the
message, without asking the barrier again.

## Key results

- `no_transfer_of_barrier_eq_ok`: no instruction of an accepted message itself is a reserve
  transfer to the relay chain
- `barrier_keeps_out_iff`: when none of what an accepted message may run is one
- `not_keepsOut_setAppendix`: every accepted message may be extended by any transfer
-/

namespace Paraxiom.XcmConfig

open Scale ProgramLoader

variable {builder : XcmBuilder} {origin : MultiLocation} {message message' : Xcm}
  {maxWeight weightCredit weightCredit' : UInt64} {inst : Instruction}

/-! ## The programs of a message -/

/-- The programs that the executor puts into its registers when it executes an instruction. The
    `xcm` of a reserve transfer is not one of them: it is executed on the other chain. -/
def Instruction.loads : Instruction → List Xcm
  | .setErrorHandler xcm => [xcm]
  | .setAppendix xcm => [xcm]
  | _ => []

mutual

/-- The programs set by an instruction, or by an instruction of such a program. -/
def Instruction.nested : Instruction → List Xcm
  | .setErrorHandler xcm => xcm :: nestedPrograms xcm
  | .setAppendix xcm => xcm :: nestedPrograms xcm
  | _ => []

/-- The error handlers and appendices in a message, at any depth. -/
def nestedPrograms : List Instruction → List Xcm
  | [] => []
  | inst :: rest => inst.nested ++ nestedPrograms rest

end

/-- The programs nested in an instruction are those it loads, and those nested in these. -/
theorem mem_nested {program : Xcm} : program ∈ inst.nested ↔
    ∃ next ∈ inst.loads, program = next ∨ program ∈ nestedPrograms next := by
  cases inst <;> simp [Instruction.nested, Instruction.loads]

/-- The programs nested in a message are those nested in its instructions. -/
theorem mem_nestedPrograms {program : Xcm} :
    program ∈ nestedPrograms message ↔ ∃ inst ∈ message, program ∈ inst.nested := by
  induction message with
  | nil => simp [nestedPrograms]
  | cons inst rest ih => simp [nestedPrograms, ih]

/-- Messages in a row nest the programs of each. -/
theorem nestedPrograms_append (message more : Xcm) :
    nestedPrograms (message ++ more) = nestedPrograms message ++ nestedPrograms more := by
  induction message with
  | nil => simp [nestedPrograms]
  | cons inst rest ih => simp [nestedPrograms, ih]

/-- A program that an instruction loads is smaller than a message with that instruction. -/
private theorem sizeOf_loads_lt {next : Xcm} (hinst : inst ∈ message) (hnext : next ∈ inst.loads) :
    sizeOf next < sizeOf message := by
  have hmem := List.sizeOf_lt_of_mem hinst
  cases inst with
  | setErrorHandler xcm =>
    rw [List.mem_singleton.mp hnext]
    simp only [Instruction.setErrorHandler.sizeOf_spec] at hmem
    omega
  | setAppendix xcm =>
    rw [List.mem_singleton.mp hnext]
    simp only [Instruction.setAppendix.sizeOf_spec] at hmem
    omega
  | _ => cases hnext

/-- The error handlers and appendices at any depth are loaded by the message. -/
theorem loaded_of_mem_nestedPrograms (message : Xcm) {program : Xcm}
    (h : program ∈ nestedPrograms message) : Loaded Instruction.loads message program := by
  -- by recursion on the size of the message, from a message to a program that it sets
  obtain ⟨inst, hinst, hnested⟩ := mem_nestedPrograms.mp h
  obtain ⟨next, hnext, rfl | hprogram⟩ := mem_nested.mp hnested
  · exact .load hinst hnext (.self program)
  · exact .load hinst hnext (loaded_of_mem_nestedPrograms next hprogram)
termination_by sizeOf message
decreasing_by exact sizeOf_loads_lt hinst hnext

/-- The programs that a message loads are itself and the ones nested in it. -/
theorem loaded_iff {program : Xcm} : Loaded Instruction.loads message program ↔
    program = message ∨ program ∈ nestedPrograms message := by
  constructor
  · intro h
    induction h with
    | self => exact .inl rfl
    | load hinst hnext _ ih =>
      exact .inr (mem_nestedPrograms.mpr ⟨_, hinst, mem_nested.mpr ⟨_, hnext, ih⟩⟩)
  · rintro (rfl | h)
    · exact .self program
    · exact loaded_of_mem_nestedPrograms message h

/-- What the executor may run is in the message or in a program nested in it. -/
theorem mayRun_message_iff : MayRun Instruction.loads message inst ↔
    inst ∈ message ∨ ∃ program ∈ nestedPrograms message, inst ∈ program := by
  simp only [mayRun_iff, loaded_iff, or_and_right, exists_or, exists_eq_left]

/-! ## The barriers of the list -/

/-- A barrier accepts a message. -/
def Accepts (barrier : ShouldExecute) (origin : MultiLocation) (message : Xcm)
    (maxWeight weightCredit : UInt64) : Prop :=
  ∃ result, barrier origin message maxWeight weightCredit = .ok result

/-- What a barrier may do to an instruction: nothing, if the instruction is one that the filter
    reads or one that sets a program. -/
inductive Instruction.Retouched : Instruction → Instruction → Prop where
  | same (inst : Instruction) : Retouched inst inst
  | other (encoded encoded' : Bytes) : Retouched (.other encoded) (.other encoded')

/-- What the barrier relies on in `xcm_builder` and `xcm_executor`. -/
structure XcmBuilder.Documented (builder : XcmBuilder) : Prop where
  /-- `TakeWeightCredit` takes the maximal weight from the weight credit. -/
  takeWeightCredit : ∀ origin message maxWeight weightCredit,
    builder.takeWeightCredit origin message maxWeight weightCredit =
      if maxWeight ≤ weightCredit then .ok (message, weightCredit - maxWeight) else .error ()
  /-- `AllowUnpaidExecutionFrom` accepts every message from the origins it is given. -/
  allowUnpaidExecutionFrom : ∀ contains origin message maxWeight weightCredit,
    builder.allowUnpaidExecutionFrom contains origin message maxWeight weightCredit =
      if contains origin then .ok (message, weightCredit) else .error ()
  /-- `AllowTopLevelPaidExecutionFrom` looks at the leading instructions, which have to pay for
      the execution: it accepts whatever comes after them. -/
  paid_append : ∀ contains origin message more maxWeight weightCredit,
    Accepts (builder.allowTopLevelPaidExecutionFrom contains) origin message
      maxWeight weightCredit →
    Accepts (builder.allowTopLevelPaidExecutionFrom contains) origin (message ++ more)
      maxWeight weightCredit
  /-- It sets the weight limit of the instruction that pays, and leaves the message otherwise. -/
  paid_retouched : ∀ contains origin message maxWeight weightCredit message' weightCredit',
    builder.allowTopLevelPaidExecutionFrom contains origin message maxWeight weightCredit =
      .ok (message', weightCredit') → List.Forall₂ Instruction.Retouched message message'
  /-- A tuple of barriers accepts what one of them accepts. -/
  tuple_accepts : ∀ barriers, ∀ barrier ∈ barriers, ∀ origin message maxWeight weightCredit,
    Accepts barrier origin message maxWeight weightCredit →
    Accepts (builder.tuple barriers) origin message maxWeight weightCredit
  /-- It does what one of them does. -/
  tuple_eq_ok : ∀ barriers origin message maxWeight weightCredit result,
    builder.tuple barriers origin message maxWeight weightCredit = .ok result →
    ∃ barrier ∈ barriers, barrier origin message maxWeight weightCredit = .ok result

private theorem Instruction.Retouched.nested_eq {inst' : Instruction} (h : inst.Retouched inst') :
    inst'.nested = inst.nested := by
  cases h with
  | same => rfl
  | other encoded encoded' => simp only [Instruction.nested]

private theorem Instruction.Retouched.isReserveTransferToRelayChain_eq {inst' : Instruction}
    (h : inst.Retouched inst') :
    isReserveTransferToRelayChain inst' = isReserveTransferToRelayChain inst := by
  cases h with
  | same => rfl
  | other encoded encoded' => rfl

/-- A barrier leaves the programs in a message as they are. -/
theorem nestedPrograms_of_retouched
    (h : List.Forall₂ Instruction.Retouched message message') :
    nestedPrograms message' = nestedPrograms message := by
  induction h with
  | nil => rfl
  | cons hinst _ ih => simp only [nestedPrograms, hinst.nested_eq, ih]

/-- A barrier leaves what the filter sees of a message as it is. -/
theorem no_transfer_of_retouched (h : List.Forall₂ Instruction.Retouched message message') :
    (∀ inst ∈ message', isReserveTransferToRelayChain inst = false) ↔
      ∀ inst ∈ message, isReserveTransferToRelayChain inst = false := by
  induction h with
  | nil => rfl
  | cons hinst _ ih =>
    simp only [List.forall_mem_cons, hinst.isReserveTransferToRelayChain_eq, ih]

/-! ## What the barrier accepts -/

/-- The barrier does what its list does, on messages that the filter lets through. -/
theorem barrier_eq_ok {result : Xcm × UInt64} :
    barrier builder origin message maxWeight weightCredit = .ok result ↔
      (∀ inst ∈ message, isReserveTransferToRelayChain inst = false) ∧
      builder.tuple (allowList builder) origin message maxWeight weightCredit = .ok result := by
  -- what `DenyReserveTransferToRelayChain` asks of the message
  have hfilter : message.any isReserveTransferToRelayChain = false ↔
      ∀ inst ∈ message, isReserveTransferToRelayChain inst = false := by
    simp only [List.any_eq_false, Bool.not_eq_true]
  rw [← hfilter]
  cases hany : message.any isReserveTransferToRelayChain <;>
    simp [barrier, denyThenTry, denyReserveTransferToRelayChain, hany, bind, Except.bind]

/-- Whatever the list of barriers is: no instruction of an accepted message itself is a reserve
    transfer to the relay chain. -/
theorem no_transfer_of_barrier_eq_ok {result : Xcm × UInt64}
    (h : barrier builder origin message maxWeight weightCredit = .ok result) :
    ∀ inst ∈ message, isReserveTransferToRelayChain inst = false :=
  (barrier_eq_ok.mp h).1

/-- An accepted message is at most retouched. -/
theorem retouched_of_barrier_eq_ok (hbuilder : builder.Documented)
    (h : barrier builder origin message maxWeight weightCredit = .ok (message', weightCredit')) :
    List.Forall₂ Instruction.Retouched message message' := by
  have hrefl : List.Forall₂ Instruction.Retouched message message :=
    List.forall₂_same.mpr fun inst _ => .same inst
  obtain ⟨allow, hallow, hok⟩ := hbuilder.tuple_eq_ok _ _ _ _ _ _ (barrier_eq_ok.mp h).2
  simp only [allowList, List.mem_cons, List.not_mem_nil, or_false] at hallow
  rcases hallow with rfl | rfl | rfl
  · -- `TakeWeightCredit` changes the credit only
    rw [hbuilder.takeWeightCredit] at hok
    split at hok
    · cases hok
      exact hrefl
    · cases hok
  · -- `AllowTopLevelPaidExecutionFrom` sets a weight limit
    exact hbuilder.paid_retouched _ _ _ _ _ _ _ hok
  · -- `AllowUnpaidExecutionFrom` changes nothing
    rw [hbuilder.allowUnpaidExecutionFrom] at hok
    split at hok
    · cases hok
      exact hrefl
    · cases hok

private theorem exists_ite_eq_ok {accepted : Prop} [Decidable accepted] (answer : Xcm × UInt64) :
    (∃ result, (if accepted then .ok answer else .error () : Except Unit (Xcm × UInt64)) =
      .ok result) ↔ accepted := by
  split <;> simp [*]

/-- The list lets through what uses a weight credit, what pays, and what the parent or its
    executive plurality sends. -/
theorem exists_mem_allowList_iff (hbuilder : builder.Documented) :
    (∃ allow ∈ allowList builder, Accepts allow origin message maxWeight weightCredit) ↔
      maxWeight ≤ weightCredit ∨
      Accepts (builder.allowTopLevelPaidExecutionFrom everything) origin message
        maxWeight weightCredit ∨
      parentOrParentsExecutivePlurality origin := by
  have htake : Accepts builder.takeWeightCredit origin message maxWeight weightCredit ↔
      maxWeight ≤ weightCredit := by
    simp only [Accepts, hbuilder.takeWeightCredit, exists_ite_eq_ok]
  have hunpaid : Accepts (builder.allowUnpaidExecutionFrom parentOrParentsExecutivePlurality)
      origin message maxWeight weightCredit ↔ parentOrParentsExecutivePlurality origin := by
    simp only [Accepts, hbuilder.allowUnpaidExecutionFrom, exists_ite_eq_ok]
  rw [← htake, ← hunpaid]
  simp only [allowList, List.mem_cons, List.not_mem_nil, or_false, exists_eq_or_imp,
    exists_eq_left]

/-- The barrier accepts what its filter and its list let through. -/
theorem accepts_barrier_iff (hbuilder : builder.Documented) :
    Accepts (barrier builder) origin message maxWeight weightCredit ↔
      (∀ inst ∈ message, isReserveTransferToRelayChain inst = false) ∧
      ∃ allow ∈ allowList builder, Accepts allow origin message maxWeight weightCredit := by
  constructor
  · rintro ⟨result, h⟩
    obtain ⟨hfilter, htuple⟩ := barrier_eq_ok.mp h
    obtain ⟨allow, hallow, hok⟩ := hbuilder.tuple_eq_ok _ _ _ _ _ _ htuple
    exact ⟨hfilter, allow, hallow, result, hok⟩
  · rintro ⟨hfilter, allow, hallow, haccepts⟩
    obtain ⟨result, htuple⟩ := hbuilder.tuple_accepts _ allow hallow _ _ _ _ haccepts
    exact ⟨result, barrier_eq_ok.mpr ⟨hfilter, htuple⟩⟩

/-! ## What runs behind the barrier -/

/-- The barrier keeps reserve transfers to the relay chain out of a message: if it accepts it,
    the executor runs none, in the message or in a program that it sets. -/
def KeepsOut (builder : XcmBuilder) (origin : MultiLocation) (message : Xcm)
    (maxWeight weightCredit : UInt64) : Prop :=
  ∀ message' weightCredit',
    barrier builder origin message maxWeight weightCredit = .ok (message', weightCredit') →
    ∀ inst, MayRun Instruction.loads message' inst → isReserveTransferToRelayChain inst = false

/-- On a message that it accepts, the barrier is as good as the nested programs are. -/
theorem keepsOut_iff (hbuilder : builder.Documented) :
    KeepsOut builder origin message maxWeight weightCredit ↔
      (Accepts (barrier builder) origin message maxWeight weightCredit →
        ∀ program ∈ nestedPrograms message, ∀ inst ∈ program,
          isReserveTransferToRelayChain inst = false) := by
  constructor
  · rintro hkeeps ⟨⟨message', weightCredit'⟩, h⟩ program hprogram inst hinst
    have hretouched := retouched_of_barrier_eq_ok hbuilder h
    rw [← nestedPrograms_of_retouched hretouched] at hprogram
    exact hkeeps message' weightCredit' h inst
      (mayRun_message_iff.mpr (.inr ⟨program, hprogram, hinst⟩))
  · intro hclean message' weightCredit' h inst hrun
    have hretouched := retouched_of_barrier_eq_ok hbuilder h
    rcases mayRun_message_iff.mp hrun with hinst | ⟨program, hprogram, hinst⟩
    · -- an instruction of the message itself: the filter has seen it
      have hfilter := no_transfer_of_barrier_eq_ok h
      exact (no_transfer_of_retouched hretouched).mpr hfilter inst hinst
    · -- an instruction of a program that the message sets: nothing has looked at it
      rw [nestedPrograms_of_retouched hretouched] at hprogram
      exact hclean ⟨_, h⟩ program hprogram inst hinst

/-! ## A transfer in an appendix -/

/-- Whoever may send a message may send it with a reserve transfer to the relay chain in an
    appendix: the barrier accepts the longer message, and the executor may run the transfer. -/
theorem not_keepsOut_setAppendix (hbuilder : builder.Documented)
    (h : Accepts (barrier builder) origin message maxWeight weightCredit) {program : Xcm}
    (hinst : inst ∈ program) (htransfer : isReserveTransferToRelayChain inst) :
    ¬ KeepsOut builder origin (message ++ [.setAppendix program]) maxWeight weightCredit := by
  rw [accepts_barrier_iff hbuilder, exists_mem_allowList_iff hbuilder] at h
  obtain ⟨hfilter, hallow⟩ := h
  -- the list looks at the origin, the weights and the leading instructions
  have haccepts : Accepts (barrier builder) origin (message ++ [.setAppendix program])
      maxWeight weightCredit := by
    rw [accepts_barrier_iff hbuilder, exists_mem_allowList_iff hbuilder]
    refine ⟨?_, hallow.imp_right (Or.imp_left (hbuilder.paid_append _ _ _ _ _ _))⟩
    intro inst' hinst'
    rcases List.mem_append.mp hinst' with hmessage | happendix
    · exact hfilter inst' hmessage
    · rw [List.mem_singleton.mp happendix]
      rfl
  have hprogram : program ∈ nestedPrograms (message ++ [.setAppendix program]) := by
    simp [nestedPrograms_append, nestedPrograms, Instruction.nested]
  intro hkeeps
  have hclean := (keepsOut_iff hbuilder).mp hkeeps haccepts program hprogram inst hinst
  rw [hclean] at htransfer
  cases htransfer

/-! ## A sample of the barriers -/

/-- Try the barriers until one accepts. -/
def tryInOrder : List ShouldExecute → ShouldExecute
  | [], _, _, _, _ => .error ()
  | barrier :: rest, origin, message, maxWeight, weightCredit =>
    match barrier origin message maxWeight weightCredit with
    | .ok result => .ok result
    | .error () => tryInOrder rest origin message maxWeight weightCredit

/-- What the list answers is the answer of one of its barriers. -/
theorem exists_of_tryInOrder_eq_ok {barriers : List ShouldExecute} {result : Xcm × UInt64}
    (h : tryInOrder barriers origin message maxWeight weightCredit = .ok result) :
    ∃ barrier ∈ barriers, barrier origin message maxWeight weightCredit = .ok result := by
  induction barriers with
  | nil => cases h
  | cons first rest ih =>
    rw [tryInOrder] at h
    split at h
    · rename_i hfirst
      exact ⟨first, List.mem_cons_self, hfirst.trans h⟩
    · obtain ⟨barrier, hbarrier, hok⟩ := ih h
      exact ⟨barrier, List.mem_cons_of_mem first hbarrier, hok⟩

/-- The list accepts what one of its barriers accepts. -/
theorem accepts_tryInOrder {barriers : List ShouldExecute} {barrier : ShouldExecute}
    (hbarrier : barrier ∈ barriers)
    (h : Accepts barrier origin message maxWeight weightCredit) :
    Accepts (tryInOrder barriers) origin message maxWeight weightCredit := by
  induction barriers with
  | nil => cases hbarrier
  | cons first rest ih =>
    rw [Accepts, tryInOrder]
    split
    · rename_i result _
      exact ⟨result, rfl⟩
    · rename_i hfirst
      rcases List.mem_cons.mp hbarrier with rfl | hrest
      · -- the first barrier accepts, and it does not
        obtain ⟨result, hok⟩ := h
        rw [hok] at hfirst
        cases hfirst
      · exact ih hrest

/-- The barriers of the list on messages that do not start by bringing assets, which are not
    paid for. -/
def sampleBuilder : XcmBuilder where
  takeWeightCredit := fun _ message maxWeight weightCredit =>
    if maxWeight ≤ weightCredit then .ok (message, weightCredit - maxWeight) else .error ()
  allowTopLevelPaidExecutionFrom := fun _ _ _ _ _ => .error ()
  allowUnpaidExecutionFrom := fun contains origin message _ weightCredit =>
    if contains origin then .ok (message, weightCredit) else .error ()
  tuple := tryInOrder

/-- The sample barriers do what is documented. -/
theorem sampleBuilder_documented : sampleBuilder.Documented where
  takeWeightCredit _ _ _ _ := rfl
  allowUnpaidExecutionFrom _ _ _ _ _ := rfl
  paid_append := by
    rintro _ _ _ _ _ _ ⟨_, h⟩
    cases h
  paid_retouched _ _ _ _ _ _ _ h := by cases h
  tuple_accepts _ _ hbarrier _ _ _ _ h := accepts_tryInOrder hbarrier h
  tuple_eq_ok _ _ _ _ _ _ h := exists_of_tryInOrder_eq_ok h

/-- Deposit all assets in the account of this chain on another chain. -/
def depositOn (dest : MultiLocation) (xcm : Xcm) : Instruction :=
  .depositReserveAsset [1, 0] 1 dest xcm

/-- An error handler that sets an appendix with a transfer to a sibling. What the sibling is to
    run is a transfer to the relay chain; it does not run here. -/
def siblingDeposit : Xcm :=
  [.setErrorHandler [.setAppendix [depositOn ⟨1, .x1 (.other [0, 4])⟩ [depositOn .parent []]]]]

/-! ## When the barrier holds -/

/-- The barrier keeps reserve transfers to the relay chain out exactly of the messages that its
    filter refuses, that no barrier of the list accepts, or that set no program with one. -/
theorem barrier_keeps_out_iff (hbuilder : builder.Documented) :
    KeepsOut builder origin message maxWeight weightCredit ↔
      (∃ inst ∈ message, isReserveTransferToRelayChain inst) ∨
      (weightCredit < maxWeight ∧
        ¬ Accepts (builder.allowTopLevelPaidExecutionFrom everything) origin message
          maxWeight weightCredit ∧
        ¬ parentOrParentsExecutivePlurality origin) ∨
      ∀ program ∈ nestedPrograms message, ∀ inst ∈ program,
        isReserveTransferToRelayChain inst = false := by
  rw [keepsOut_iff hbuilder, accepts_barrier_iff hbuilder, exists_mem_allowList_iff hbuilder]
  constructor
  · -- where the filter and the list let the message through, the nested programs decide
    intro hclean
    by_cases hfilter : ∀ inst ∈ message, isReserveTransferToRelayChain inst = false
    · by_cases hallow : maxWeight ≤ weightCredit ∨
          Accepts (builder.allowTopLevelPaidExecutionFrom everything) origin message
            maxWeight weightCredit ∨
          parentOrParentsExecutivePlurality origin
      · exact .inr (.inr (hclean ⟨hfilter, hallow⟩))
      · simp only [not_or, UInt64.not_le] at hallow
        exact .inr (.inl hallow)
    · simp only [not_forall, Bool.not_eq_false] at hfilter
      obtain ⟨inst, hinst, htransfer⟩ := hfilter
      exact .inl ⟨inst, hinst, htransfer⟩
  · rintro (⟨inst, hinst, htransfer⟩ | ⟨hcredit, hpaid, horigin⟩ | hclean)
    · -- the filter refuses the message
      rintro ⟨hfilter, -⟩
      rw [hfilter inst hinst] at htransfer
      cases htransfer
    · -- the list refuses the message
      rintro ⟨-, hallow | hallow | hallow⟩
      · exact absurd hallow (UInt64.not_le.mpr hcredit)
      · exact absurd hallow hpaid
      · exact absurd hallow horigin
    · exact fun _ => hclean

/-- A message that deposits at a sibling is accepted, and nothing gets through in it. -/
theorem barrier_keeps_out_iff_sample :
    Accepts (barrier sampleBuilder) .parent siblingDeposit 3000000000 0 ∧
      KeepsOut sampleBuilder .parent siblingDeposit 3000000000 0 := by
  refine ⟨⟨(siblingDeposit, 0), rfl⟩, ?_⟩
  exact (barrier_keeps_out_iff sampleBuilder_documented).mpr (.inr (.inr (by decide)))

/-- The relay chain may have its message run a transfer to the relay chain as an appendix. -/
theorem appendix_not_kept_out : sampleBuilder.Documented ∧
    ¬ KeepsOut sampleBuilder .parent [.setAppendix [depositOn .parent []]] 2000000000 0 := by
  refine ⟨sampleBuilder_documented, ?_⟩
  have haccepts : Accepts (barrier sampleBuilder) .parent [] 2000000000 0 := ⟨([], 0), rfl⟩
  exact not_keepsOut_setAppendix sampleBuilder_documented haccepts
    (List.mem_singleton_self (depositOn .parent [])) rfl

end Paraxiom.XcmConfig
