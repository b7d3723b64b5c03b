import Libunwind.Dwarf.Step

/-! # `unw_step` on riscv

A signal trampoline is recognised by its code, and every other frame is stepped
over by the unwind tables; where these do not lead on, the return address is
taken from `x1`. Words have 32 or 64 bits.
-/

namespace Libunwind.RiscV

open Dwarf

/-- riscv preserves 66 registers, and literals are their numbers. -/
instance neZeroRiscV : NeZero 66 := ⟨by decide⟩

def x0 : Fin 66 := 0
def x1 : Fin 66 := 1
def x2 : Fin 66 := 2
def f0 : Fin 66 := 32
def f31 : Fin 66 := 63
def pc : Fin 66 := 64

variable {w : Nat}

/-- What `struct cursor` has besides the DWARF cursor. -/
structure Extra (w : Nat) where
  /-- `sigcontext_format` is `RISCV_SCF_LINUX_RT_SIGFRAME`. -/
  rtSigframe : Bool := false
  sigcontextAddr : Word w := 0
  sigcontextSp : Word w := 0
  sigcontextPc : Word w := 0
  deriving DecidableEq, Repr

abbrev RiscVCursor (w : Nat) := Cursor 66 w (Extra w)

/-- How libunwind was built. -/
structure Host (w : Nat) where
  localOnly : Bool
  /-- `DWARF_REG_LOC`. -/
  regLoc : Int → Loc w := fun r => ⟨BitVec.ofInt w r, .reg⟩

section Source

variable (host : Host w) (as : AddrSpace w) (c : RiscVCursor w)

/-- `tdep_access_reg`, for reading. -/
def accessReg (reg : Int) : Result (Word w) :=
  if 32 ≤ reg ∧ reg ≤ 63 then .error (.err .badreg)
  else if reg = 0 then pure 0
  -- PC is stored in place of the hard-wired X0
  else if reg = 64 then (c.loc x0).get host.localOnly as
  else if reg = 2 then pure c.cfa
  else if valid : 0 ≤ reg ∧ reg.toNat < 66 then (c.loc ⟨reg.toNat, valid.2⟩).get host.localOnly as
  else .error .undefined

/-- The target of riscv Linux as this host builds it. -/
def Host.target : Target 66 w (Extra w) where
  cfi := { sp := x2 }
  localOnly := host.localOnly
  valLocs := false
  regLoc := host.regLoc
  toUnwRegnum r := if r < 0 then .error .undefined else pure (if r < 64 then r else 0)
  regIp := 64
  accessReg := accessReg host

/-- `common_init`, on the memory of the cursor. -/
def Host.commonInit (before : RiscVCursor w) (usePrevInstr : Bool) : Result (RiscVCursor w) := do
  let loc (r : Fin 66) : Loc w := if r < f0 ∨ r = pc then host.regLoc r else nullLoc
  let ip ← (loc pc).get host.localOnly as
  let cfa ← (host.regLoc x2).get host.localOnly as
  pure { before with
    ip, cfa, loc, usePrevInstr
    stashFrames := false
    piValid := false
    piIsDynamic := false
    hint := 0
    prevRs := 0
    tdep := {} }

/-- `unw_is_signal_frame`: the code is `addi x17, zero, 139` and `ecall`. -/
def unwIsSignalFrame : Result Bool :=
  if c.ip = 0 then pure false
  else do
    let i0 ← ofAccess (as.accessMem c.ip)
    let i1 ← ofAccess (as.accessMem (c.ip + 4))
    pure (i0 &&& 0xffffffff == 0x08b00893 && i1 &&& 0xffffffff == 0x00000073)

/-- Where a signal context keeps a register; PC is stored in place of X0. -/
def sigcontextLoc (sigcontextAddr : Word w) (r : Fin 66) : Loc w :=
  if r = pc then memLoc (sigcontextAddr + 8 * 0)
  else if x1 ≤ r ∧ r ≤ f31 then memLoc (sigcontextAddr + 8 * BitVec.ofNat w r)
  else nullLoc

/-- The cursor that `riscv_handle_signal_frame` makes of a signal frame. -/
def signalStep : RiscVCursor w :=
  -- behind the `siginfo_t`, at `UC_MCONTEXT_REGS_OFF`
  let sigcontextAddr := c.cfa + 128 + 176
  let loc := sigcontextLoc sigcontextAddr
  { c with
    tdep := { rtSigframe := true, sigcontextAddr, sigcontextSp := c.cfa, sigcontextPc := c.ip }
    loc
    cfa := (loc x2).getInto host.localOnly as c.cfa
    ip := (loc pc).getInto host.localOnly as c.ip }

/-- `riscv_handle_signal_frame`. -/
def handleSignalFrame : Result Bool × RiscVCursor w :=
  match (memLoc c.cfa).get host.localOnly as with
  | .error _ => (.error (.err .unspec), c)
  | .ok _ =>
      if unwIsSignalFrame as c = .ok false then (.error (.err .unspec), c)
      else (.ok true, signalStep host as c)

/-- The step by the return address in `x1`. -/
def returnAddressStep : Result Bool × RiscVCursor w :=
  let retLoc := c.loc x1
  let c := { c with loc := Function.update (Function.update c.loc pc retLoc) x1 nullLoc }
  if retLoc.isNull host.localOnly then (.ok false, { c with ip := 0 })
  else
    match retLoc.get host.localOnly as with
    | .error fault => (.error fault, c)
    | .ok ip => (.ok (ip ≠ 0), { c with ip })

/-- `unw_step`. -/
def unwStep (space : StepSpace 66 w) : Result Bool × RiscVCursor w :=
  if unwIsSignalFrame space.as c = .ok true then handleSignalFrame host space.as c
  else
    match dwarfStep host.target space c with
    | (.error (.err code), c) =>
        if code = .stopunwind then (.error (.err code), c) else returnAddressStep host space.as c
    | stepped => stepped

end Source

end Libunwind.RiscV
