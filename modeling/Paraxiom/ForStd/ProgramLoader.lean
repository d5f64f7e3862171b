import Mathlib.Logic.Relation

/-!
# Programs that load programs

An instruction may put further programs into the registers of the machine that executes it,
to be run when the current program ends or fails. Which register is run when, which
instruction fails, and whether a register is overwritten before it is run is left open: a
`Step` may be any of these. What such a machine `MayRun` is then exactly the instructions of
the programs that are `Loaded`, at any depth (`mayRun_iff`).
-/

namespace ProgramLoader

variable {I : Type} (loads : I → List (List I))

/-- The programs that a program loads: itself, and what its instructions load. -/
inductive Loaded : List I → List I → Prop where
  | self (program : List I) : Loaded program program
  | load {program next loaded : List I} {inst : I} (hinst : inst ∈ program)
      (hnext : next ∈ loads inst) (hloaded : Loaded next loaded) : Loaded program loaded

/-- The rest of the current program, and every program that has been put into a register. -/
structure Machine (I : Type) where
  program : List I
  registers : List (List I)

/-- Execute an instruction, or leave the program for that of a register. -/
inductive Step : Machine I → Machine I → Prop where
  | execute (inst : I) (rest : List I) (registers : List (List I)) :
      Step ⟨inst :: rest, registers⟩ ⟨rest, loads inst ++ registers⟩
  | run (program next : List I) (registers : List (List I)) (hnext : next ∈ registers) :
      Step ⟨program, registers⟩ ⟨next, registers⟩

/-- Some run of a program comes to an instruction. -/
def MayRun (program : List I) (inst : I) : Prop :=
  ∃ rest registers,
    Relation.ReflTransGen (Step loads) ⟨program, []⟩ ⟨inst :: rest, registers⟩

variable {loads} {program next loaded : List I} {inst : I}

theorem Loaded.trans (h : Loaded loads program next) (h' : Loaded loads next loaded) :
    Loaded loads program loaded := by
  induction h with
  | self program => exact h'
  | load hinst hnext _ ih => exact .load hinst hnext (ih h')

/-! ## What runs is loaded -/

/-- The machine holds programs that the first one loads, the current one in part. -/
structure Within (loads : I → List (List I)) (program : List I) (m : Machine I) : Prop where
  current : ∃ loaded, Loaded loads program loaded ∧ m.program <:+ loaded
  registers : ∀ register ∈ m.registers, Loaded loads program register

theorem Within.step {m m' : Machine I} (h : Within loads program m) (hstep : Step loads m m') :
    Within loads program m' := by
  obtain ⟨⟨loaded, hloaded, hsuffix⟩, hregisters⟩ := h
  cases hstep with
  | execute inst rest registers =>
    refine ⟨⟨loaded, hloaded, (List.suffix_cons inst rest).trans hsuffix⟩, ?_⟩
    intro register hregister
    rcases List.mem_append.mp hregister with hnew | hold
    · -- the instruction has just loaded it, and the instruction is of a program that is loaded
      have hinst : inst ∈ loaded := hsuffix.subset List.mem_cons_self
      exact hloaded.trans (.load hinst hnew (.self register))
    · exact hregisters register hold
  | run current next registers hnext =>
    exact ⟨⟨next, hregisters next hnext, List.suffix_rfl⟩, hregisters⟩

theorem Within.run {m : Machine I}
    (h : Relation.ReflTransGen (Step loads) ⟨program, []⟩ m) : Within loads program m := by
  induction h with
  | refl => exact ⟨⟨program, .self program, List.suffix_rfl⟩, nofun⟩
  | tail _ hstep ih => exact ih.step hstep

/-! ## What is loaded may run -/

/-- A machine may execute its program up to any place in it. -/
theorem exists_run_to (before rest : List I) (registers : List (List I)) :
    ∃ registers', Relation.ReflTransGen (Step loads) ⟨before ++ rest, registers⟩
      ⟨rest, registers'⟩ := by
  induction before generalizing registers with
  | nil => exact ⟨registers, .refl⟩
  | cons inst before ih =>
    obtain ⟨registers', hrun⟩ := ih (loads inst ++ registers)
    exact ⟨registers', .head (.execute inst (before ++ rest) registers) hrun⟩

/-- A machine may get to every program that its program loads. -/
theorem exists_run_of_loaded (h : Loaded loads program loaded) (registers : List (List I)) :
    ∃ registers', Relation.ReflTransGen (Step loads) ⟨program, registers⟩
      ⟨loaded, registers'⟩ := by
  induction h generalizing registers with
  | self program => exact ⟨registers, .refl⟩
  | @load program next loaded inst hinst hnext _ ih =>
    -- up to the instruction that loads the next program, and straight to that program
    obtain ⟨before, rest, rfl⟩ := List.append_of_mem hinst
    obtain ⟨registers₁, hbefore⟩ := exists_run_to before (inst :: rest) registers
    obtain ⟨registers₂, hrun⟩ := ih (loads inst ++ registers₁)
    have hjump : Step loads ⟨rest, loads inst ++ registers₁⟩ ⟨next, loads inst ++ registers₁⟩ :=
      .run rest next _ (List.mem_append_left registers₁ hnext)
    exact ⟨registers₂, hbefore.trans (.head (.execute inst rest registers₁) (.head hjump hrun))⟩

/-- The machine may run exactly the instructions of the programs that are loaded. -/
theorem mayRun_iff : MayRun loads program inst ↔ ∃ loaded, Loaded loads program loaded ∧
    inst ∈ loaded := by
  constructor
  · rintro ⟨rest, registers, hrun⟩
    obtain ⟨loaded, hloaded, hsuffix⟩ := (Within.run hrun).current
    exact ⟨loaded, hloaded, hsuffix.subset List.mem_cons_self⟩
  · rintro ⟨loaded, hloaded, hinst⟩
    obtain ⟨before, rest, rfl⟩ := List.append_of_mem hinst
    obtain ⟨registers₁, hload⟩ := exists_run_of_loaded hloaded []
    obtain ⟨registers₂, hbefore⟩ := exists_run_to before (inst :: rest) registers₁
    exact ⟨rest, registers₂, hload.trans hbefore⟩

end ProgramLoader
