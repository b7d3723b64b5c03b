import Libunwind.X64.LocSemantics

/-! # The accessor argument of a local cursor

`as_arg` packs the address of the context and, in its lowest bit, whether reads are validated.
`unw_step` raises the bit for the parts of a step that read by guesswork, and sets it afterwards
to what it was. The setter can only raise it.
-/

namespace Libunwind.X86_64

open Dwarf

/-! ## The packed argument -/

/-- `AS_ARG_GET_UC_PTR` -/
def asArgGetUcPtr (arg : Word 64) : Word 64 := arg &&& ~~~1

/-- `AS_ARG_GET_VALIDATE` -/
def asArgGetValidate (arg : Word 64) : BitVec 32 := (arg &&& 1).setWidth 32

/-- `dwarf_set_validate` -/
def dwarfSetValidate (arg : Word 64) (validate : BitVec 32) : Word 64 :=
  arg ||| (1 &&& validate.signExtend 64)

/-- `dwarf_build_as_arg`, which asserts that the pointer is even. -/
def dwarfBuildAsArg (uc : Word 64) (validate : BitVec 32) : Result (Word 64) :=
  if uc &&& 1 = 0 then pure (uc ||| (1 &&& validate.signExtend 64)) else .error .undefined

/-- The process, as the accessors see it through an argument. -/
def ContextProcess.through (p : ContextProcess) (arg : Word 64) : ContextProcess :=
  { p with uc := asArgGetUcPtr arg, validate := asArgGetValidate arg != 0 }

/-! ## The step -/

/-- What the step of a local cursor finds: its process, and by each argument what
    `dwarf_step` finds besides the memory. -/
structure LocalSpace where
  process : ContextProcess
  tables : Word 64 → StepSpace 17 64

def LocalSpace.through (space : LocalSpace) (arg : Word 64) : StepSpace 17 64 :=
  { space.tables arg with as := (space.process.through arg).space }

section Source

variable (conservativeChecks : Bool) (host : Host) (space : LocalSpace) (c : X86Cursor)
  (arg : Word 64)

/-- The argument that `dwarf_step` is called with. -/
def tablesArg : Word 64 := if conservativeChecks then dwarfSetValidate arg 1 else arg

/-- `dwarf_step`, as `unw_step` calls it. -/
def tablesStep : Result Bool × X86Cursor :=
  dwarfStep host.target (space.through (tablesArg conservativeChecks arg)) (clearSigcontext c)

/-- The argument that is left for the rest of the step. -/
def restoredArg : Word 64 :=
  if conservativeChecks then
    dwarfSetValidate (tablesArg conservativeChecks arg) (asArgGetValidate arg)
  else arg

/-- The argument that the fallback is called with. -/
def fallbackArg : Word 64 := dwarfSetValidate (restoredArg conservativeChecks arg) 1

/-- `unw_step` on a cursor of `unw_local_addr_space`, with what it leaves in `as_arg`. -/
def unwStepArg : (Result Bool × X86Cursor) × Word 64 :=
  match tablesStep conservativeChecks host space c arg with
  | (.error (.err .noinfo), c) =>
      let val := asArgGetValidate (restoredArg conservativeChecks arg)
      let arg := fallbackArg conservativeChecks arg
      let (stepped, next) := unwStepFallback host (space.through arg).as c
      ((stepped.map fun more => more && !(next.ip == c.ip && next.cfa == c.cfa), next),
        dwarfSetValidate arg val)
  | stepped => (stepped, restoredArg conservativeChecks arg)

end Source

/-! ## The setter -/

section Setter

variable {arg : Word 64} {validate : BitVec 32}

theorem getLsbD_dwarfSetValidate (i : Nat) :
    (dwarfSetValidate arg validate).getLsbD i =
      (arg.getLsbD i || (decide (i = 0) && validate.getLsbD 0)) := by
  rw [dwarfSetValidate, BitVec.getLsbD_or, BitVec.getLsbD_and, BitVec.ofNat_eq_ofNat,
    BitVec.getLsbD_one]
  by_cases lowest : i = 0
  · rw [lowest, BitVec.getLsbD_signExtend]
    simp
  · simp [lowest]

theorem asArgGetValidate_eq : asArgGetValidate arg = if arg.getLsbD 0 then 1 else 0 := by
  have bits (i : Nat) : (asArgGetValidate arg).getLsbD i = (decide (i = 0) && arg.getLsbD 0) := by
    rw [asArgGetValidate, BitVec.getLsbD_setWidth, BitVec.getLsbD_and, BitVec.ofNat_eq_ofNat,
      BitVec.getLsbD_one]
    by_cases lowest : i = 0
    · simp [lowest]
    · simp [lowest]
  apply BitVec.eq_of_getLsbD_eq
  intro i inside
  rw [bits]
  cases arg.getLsbD 0 <;> simp

theorem asArgGetUcPtr_set : asArgGetUcPtr (dwarfSetValidate arg validate) = asArgGetUcPtr arg := by
  apply BitVec.eq_of_getLsbD_eq
  intro i inside
  rw [asArgGetUcPtr, asArgGetUcPtr, BitVec.getLsbD_and, BitVec.getLsbD_and,
    getLsbD_dwarfSetValidate]
  by_cases lowest : i = 0
  · simp [lowest]
  · simp [lowest]

@[simp] theorem asArgGetValidate_raised : asArgGetValidate (dwarfSetValidate arg 1) = 1 := by
  simp [asArgGetValidate_eq, getLsbD_dwarfSetValidate]

/-- Of an argument that has the bit, nothing is changed. -/
theorem dwarfSetValidate_of_raised (raised : asArgGetValidate arg = 1) :
    dwarfSetValidate arg validate = arg := by
  have bit : arg.getLsbD 0 = true := by
    rw [asArgGetValidate_eq] at raised
    cases bit : arg.getLsbD 0 with
    | true => rfl
    | false =>
        rw [bit] at raised
        cases raised
  apply BitVec.eq_of_getLsbD_eq
  intro i inside
  rw [getLsbD_dwarfSetValidate]
  by_cases lowest : i = 0
  · simp [lowest, bit]
  · simp [lowest]

/-- What is packed for a new cursor is what is taken out of it. -/
theorem dwarfBuildAsArg_unpacks {uc : Word 64} (built : dwarfBuildAsArg uc validate = .ok arg) :
    asArgGetUcPtr arg = uc ∧ asArgGetValidate arg = validate &&& 1 := by
  unfold dwarfBuildAsArg at built
  split at built
  next even =>
    have packed : dwarfSetValidate uc validate = arg := Except.ok.inj built
    have lowest : uc.getLsbD 0 = false := by
      have bit := congrArg (BitVec.getLsbD · 0) even
      simpa using bit
    constructor
    · rw [← packed, asArgGetUcPtr_set, asArgGetUcPtr]
      apply BitVec.eq_of_getLsbD_eq
      intro i inside
      rw [BitVec.getLsbD_and, BitVec.getLsbD_not, BitVec.ofNat_eq_ofNat, BitVec.getLsbD_one]
      by_cases first : i = 0
      · rw [first, lowest, Bool.false_and]
      · simp [first, inside]
    · rw [← packed, asArgGetValidate_eq, getLsbD_dwarfSetValidate, lowest]
      apply BitVec.eq_of_getLsbD_eq
      intro i inside
      rw [BitVec.getLsbD_and, BitVec.ofNat_eq_ofNat, BitVec.getLsbD_one]
      by_cases first : i = 0
      · rw [first]
        cases validate.getLsbD 0 <;> rfl
      · cases validate.getLsbD 0 <;> simp [first]
  next => cases built

end Setter

/-! ## What a step leaves -/

section Kept

variable {conservativeChecks : Bool} {host : Host} {space : LocalSpace} {c : X86Cursor}
  {arg : Word 64}

/-- The accessor argument is what it was. -/
structure KeepsArg (before after : Word 64) : Prop where
  ucPtr : asArgGetUcPtr after = asArgGetUcPtr before
  validate : asArgGetValidate after = asArgGetValidate before

/-- The memory that can be read through an argument is what the validator accepts. -/
def Validates (space : LocalSpace) (arg : Word 64) : Prop :=
  ∀ addr val, (space.through arg).as.accessMem addr = .ok val →
    space.process.addressIsValid addr = true

theorem validates_of_raised (raised : asArgGetValidate arg = 1) : Validates space arg := by
  intro addr val read
  simp only [LocalSpace.through, ContextProcess.space, ContextProcess.through, raised] at read
  cases valid : space.process.addressIsValid addr with
  | true => rfl
  | false => simp [valid] at read

theorem restoredArg_eq :
    restoredArg conservativeChecks arg =
      if conservativeChecks then dwarfSetValidate arg 1 else arg := by
  cases conservativeChecks with
  | false => rfl
  | true => exact dwarfSetValidate_of_raised asArgGetValidate_raised

theorem fallbackArg_eq : fallbackArg conservativeChecks arg = dwarfSetValidate arg 1 := by
  rw [fallbackArg, restoredArg_eq]
  cases conservativeChecks with
  | false => rfl
  | true => exact dwarfSetValidate_of_raised asArgGetValidate_raised

/-- A step raises the bit where it validates, and leaves it so. -/
theorem unwStepArg_arg :
    (unwStepArg conservativeChecks host space c arg).2 =
      if conservativeChecks = true ∨
        (tablesStep conservativeChecks host space c arg).1 = .error (.err .noinfo)
      then dwarfSetValidate arg 1 else arg := by
  unfold unwStepArg
  split
  next c₁ noinfo =>
    rw [if_pos (.inr (by rw [noinfo]))]
    simp only [fallbackArg_eq]
    exact dwarfSetValidate_of_raised asArgGetValidate_raised
  next other =>
    have informed :
        (tablesStep conservativeChecks host space c arg).1 ≠ .error (.err .noinfo) := by
      intro noinfo
      exact other _ (Prod.ext noinfo rfl)
    simp [restoredArg_eq, informed]

theorem keepsArg_raised : KeepsArg arg (dwarfSetValidate arg 1) ↔ asArgGetValidate arg = 1 := by
  constructor
  · intro kept
    rw [← kept.validate]
    exact asArgGetValidate_raised
  · intro raised
    rw [dwarfSetValidate_of_raised raised]
    exact ⟨rfl, rfl⟩

/-- The argument is kept if the bit was set before, or if no part of the step set it. What the
    fallback reads is validated in any case. -/
theorem unwStepArg_keeps_iff :
    (KeepsArg arg (unwStepArg conservativeChecks host space c arg).2 ∧
        Validates space (fallbackArg conservativeChecks arg)) ↔
      asArgGetValidate arg = 1 ∨
        (conservativeChecks = false ∧
          (tablesStep conservativeChecks host space c arg).1 ≠ .error (.err .noinfo)) := by
  have validates : Validates space (fallbackArg conservativeChecks arg) := by
    rw [fallbackArg_eq]
    exact validates_of_raised asArgGetValidate_raised
  rw [unwStepArg_arg]
  split
  next sets =>
    rw [keepsArg_raised]
    constructor
    · intro kept
      exact .inl kept.1
    · rintro (raised | ⟨off, informed⟩)
      · exact ⟨raised, validates⟩
      · cases sets with
        | inl on => cases off.symm.trans on
        | inr noinfo => exact absurd noinfo informed
  next keeps =>
    refine iff_of_true ⟨⟨rfl, rfl⟩, validates⟩ (.inr ?_)
    simpa using keeps

/-- With the bit set, this is the step whose memory is read through the argument. -/
theorem unwStepArg_step (raised : asArgGetValidate arg = 1) :
    unwStepArg conservativeChecks host space c arg =
      (unwStep host c (space.through arg), arg) := by
  have tables : tablesArg conservativeChecks arg = arg := by
    simp [tablesArg, dwarfSetValidate_of_raised raised]
  have restored : restoredArg conservativeChecks arg = arg := by
    simp [restoredArg_eq, dwarfSetValidate_of_raised raised]
  have fallback : fallbackArg conservativeChecks arg = arg := by
    rw [fallbackArg_eq, dwarfSetValidate_of_raised raised]
  simp only [unwStepArg, unwStep, tablesStep, tables, restored, fallback,
    dwarfSetValidate_of_raised raised]
  cases dwarfStep host.target (space.through arg) (clearSigcontext c) with
  | mk result c₁ =>
      cases result with
      | ok more => rfl
      | error fault =>
          cases fault with
          | err code => cases code <;> rfl
          | undefined => rfl
          | timeout => rfl

end Kept

/-- A process of which the unwind tables know nothing. -/
def tablelessSpace : LocalSpace where
  process := { stackProcess with validate := false }
  tables _ := bareSpace stackProcess.space

/-- The step finds no caller, and from then on reads are validated. -/
theorem tablelessSpace_not_kept :
    (unwStepArg false linuxHost tablelessSpace (stoppedCursor 0x402000 0x7000 true) 0x7fff0000).1.1 =
        .ok false ∧
      ¬KeepsArg 0x7fff0000 (unwStepArg false linuxHost tablelessSpace
        (stoppedCursor 0x402000 0x7000 true) 0x7fff0000).2 := by
  refine ⟨rfl, fun kept => ?_⟩
  have raised := kept.validate
  rw [unwStepArg_arg, if_pos (.inr rfl)] at raised
  exact absurd raised (by decide)

end Libunwind.X86_64
