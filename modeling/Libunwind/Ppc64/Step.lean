import Libunwind.Dwarf.Step

/-! # `unw_step` on ppc64

A signal trampoline is recognised by its code, and every other frame is stepped
over by the unwind tables. Where these know nothing of it, a PLT entry returns by
the link register, and any other frame by the chain of stack pointers. All of them
end in the search for an instruction that reloads the TOC pointer.
-/

namespace Libunwind.Ppc64

open Dwarf

/-- ppc64 preserves 115 registers, and literals are their numbers. -/
instance neZeroPpc64 : NeZero 115 := ⟨by decide⟩

def r1 : Fin 115 := 1
def r2 : Fin 115 := 2
def r31 : Fin 115 := 31
def f31 : Fin 115 := 63
def lr : Fin 115 := 65
def ctr : Fin 115 := 66
def argPointer : Fin 115 := 67
def cr0 : Fin 115 := 68
def cr7 : Fin 115 := 75
def xer : Fin 115 := 76
def v0 : Fin 115 := 77
def v31 : Fin 115 := 108
def vrsave : Fin 115 := 109
def vscr : Fin 115 := 110
def spefscr : Fin 115 := 112
def framePointer : Fin 115 := 113
def nip : Fin 115 := 114

/-- `ppc64_abi_t`. -/
inductive Abi where
  | elfv1
  | elfv2
  deriving DecidableEq, Repr

/-- What `struct cursor` has besides the DWARF cursor. -/
structure Extra where
  /-- `sigcontext_format` is `PPC_SCF_LINUX_RT_SIGFRAME`. -/
  rtSigframe : Bool := false
  sigcontextAddr : Word 64 := 0
  deriving DecidableEq, Repr

abbrev Ppc64Cursor := Cursor 115 64 Extra

/-- How libunwind was built, and what it finds in its host. The offsets in a
    `ucontext_t` are those of Linux. -/
structure Host where
  localOnly : Bool
  /-- `UNW_BYTE_ORDER` is `UNW_BIG_ENDIAN`. -/
  bigEndian : Bool := false
  abi : Abi := .elfv2
  /-- `DWARF_REG_LOC`. -/
  regLoc : Int → Loc 64 := fun r => ⟨BitVec.ofInt 64 r, .reg⟩
  /-- `DWARF_FPREG_LOC` and `DWARF_VREG_LOC`. -/
  fpregLoc : Int → Loc 64 := fun r => ⟨BitVec.ofInt 64 r, .fpreg⟩
  gpRegs : Word 64 := 232
  fpRegs : Word 64 := 616
  vRegs : Word 64 := 880

section Source

variable (host : Host) (as : AddrSpace 64) (c : Ppc64Cursor)

/-- `tdep_access_reg`, for reading. -/
def accessReg (reg : Int) : Result (Word 64) :=
  if reg = 114 then pure c.ip
  else if reg = 1 then pure c.cfa
  else if valid : 0 ≤ reg ∧ reg.toNat < 115 then
    let r : Fin 115 := ⟨reg.toNat, valid.2⟩
    if r ≤ r31 ∨ r = lr ∨ r = ctr ∨ (cr0 ≤ r ∧ r ≤ cr7) ∨ (vrsave ≤ r ∧ r ≤ spefscr) then
      (c.loc r).get host.localOnly as
    else .error (.err .badreg)
  else .error (.err .badreg)

/-- The target of ppc64 as this host builds it. -/
def Host.target : Target 115 64 Extra where
  cfi := { sp := r1 }
  localOnly := host.localOnly
  valLocs := false
  regLoc := host.regLoc
  toUnwRegnum r := if r < 0 then .error .undefined else pure (if r ≤ 112 ∧ r ≠ 64 then r else 0)
  regIp := 114
  accessReg := accessReg host

/-- `common_init_ppc64`, on the memory of the cursor. -/
def Host.commonInit (before : Ppc64Cursor) (usePrevInstr : Bool) : Result Ppc64Cursor := do
  let loc (r : Fin 115) : Loc 64 :=
    if r ≤ r31 ∨ (lr ≤ r ∧ r ≤ xer) ∨ (vrsave ≤ r ∧ r ≤ spefscr) ∨ r = nip then host.regLoc r
    else if r ≤ f31 ∨ (v0 ≤ r ∧ r ≤ v31) then host.fpregLoc r
    else before.loc r
  let ip ← (loc nip).get host.localOnly as
  let cfa ← (host.regLoc r1).get host.localOnly as
  pure { before with
    ip, cfa, loc, usePrevInstr
    stashFrames := false
    piValid := false
    piIsDynamic := false
    hint := 0
    prevRs := 0
    tdep := {} }

/-! ## Code -/

/-- `_read_instruction`: the instruction is in one half of an aligned word. -/
def readInstruction (addr : Word 64) : Option (BitVec 32) :=
  let aligned := addr &&& ~~~7
  match as.accessMem aligned with
  | .ok word =>
      let first := if as.bigEndian then word >>> 32 else word
      let second := if as.bigEndian then word else word >>> 32
      some ((if addr = aligned then first else second).setWidth 32)
  | .error _ => none

/-- `fetch32`. Code that is local only loads the bytes; else the half of an aligned
    word is picked by the byte order that libunwind was built for. -/
def fetch32 (addr : Word 64) : Result (BitVec 32) :=
  if host.localOnly then
    match readu32 as addr with
    | .ok (value, _) => pure value
    | .error _ => .error .undefined
  else do
    let aligned := addr &&& ~~~7
    let off := addr - aligned
    if off &&& 3 ≠ 0 then .error (.err .inval)
    else
      let word ← ofAccess (as.accessMem aligned)
      pure ((word >>> (8 * if host.bigEndian then 4 - off else off)).setWidth 32)

/-- `unw_is_signal_frame`: the code is `li r0, 172` and `sc`, perhaps behind
    `addi r1, r1, 128`. -/
def unwIsSignalFrame : Bool :=
  if c.ip = 0 then false
  else
    match as.accessMem c.ip, as.accessMem (c.ip + 8) with
    | .ok w0, .ok w1 =>
        let i0 := if as.bigEndian then w0 >>> 32 else w0 &&& 0xffffffff
        let i1 := if as.bigEndian then w0 &&& 0xffffffff else w0 >>> 32
        let i2 := if as.bigEndian then w1 >>> 32 else w1 &&& 0xffffffff
        (i0 == 0x38210080 && i1 == 0x380000ac && i2 == 0x44000002) ||
          (i0 == 0x380000ac && i1 == 0x44000002)
    | _, _ => false

/-- The instructions of an ELFv1 PLT call stub, with their masks. -/
def elfv1Stub : List (BitVec 32 × BitVec 32) :=
  [(0xf8410028, 0xffffffff), (0x3d620000, 0xffff0000), (0xe98b0000, 0xffff0000),
    (0x7d8903a6, 0xffffffff), (0xe84b0000, 0xffff0000), (0x4e800420, 0xffffffff)]

/-- The code from `start` on is a stub. -/
def isElfv1Stub (start : Word 64) : Bool :=
  elfv1Stub.zipIdx.all fun ((pattern, mask), i) =>
    match readInstruction as (start + 4 * BitVec.ofNat 64 i) with
    | some insn => insn &&& mask == pattern
    | none => false

/-- `_is_plt_entry_elfv1`: `ip` is anywhere in a stub. -/
def isPltEntryElfv1 : Bool :=
  (List.range 6).any fun offset => isElfv1Stub as (c.ip - 4 * BitVec.ofNat 64 offset)

/-- The four instructions of an ELFv2 PLT entry: `std`, `ld`, `mtctr`, `bctr`. -/
def isStd (insn : Word 64) : Bool := insn &&& 0xffffffff == 0xf8410018
def isLd (insn : Word 64) : Bool := insn &&& 0xffff0000 == 0xe9820000
def isMtctr (insn : Word 64) : Bool := insn &&& 0xffffffff == 0x7d8903a6
def isBctr (insn : Word 64) : Bool := insn &&& 0xffffffff == 0x4e800420

def isPltStart (w0 : Word 64) : Bool := isStd w0 && isLd (w0 >>> 32)
def isPltEnd (w1 : Word 64) : Bool := isMtctr w1 && isBctr (w1 >>> 32)

/-- The two halves of a PLT entry around `ip`, where its word tells the place. -/
def pltHalves (w0 : Word 64) : Option (Word 64 × Word 64) :=
  let read (addr : Word 64) : Option (Word 64) := (as.accessMem addr).toOption
  if isPltStart w0 then (read (c.ip + 8)).map fun w1 => (w0, w1)
  else if isPltEnd w0 then (read (c.ip - 8)).map fun w => (w, w0)
  else if isLd w0 && isMtctr (w0 >>> 32) then do
    let w0 ← read (c.ip - 4)
    let w1 ← read (c.ip + 4)
    pure (w0, w1)
  else if isBctr w0 then do
    let w0 ← read (c.ip - 12)
    let w1 ← read (c.ip - 4)
    pure (w0, w1)
  else none

/-- `_is_plt_entry`. -/
def isPltEntry : Bool :=
  if as.bigEndian then isPltEntryElfv1 as c
  else
    match as.accessMem c.ip with
    | .ok w0 =>
        match pltHalves as c w0 with
        | some (w0, w1) => isPltStart w0 && isPltEnd w1
        | none => false
    | .error _ => false

/-! ## The tail -/

/-- Where a caller keeps its TOC pointer during a call. -/
def Host.tocSave : Word 64 :=
  match host.abi with
  | .elfv2 => 24
  | .elfv1 => 40

/-- The instruction that loads it again: `ld r2, tocSave(r1)`. -/
def Host.tocReload : BitVec 32 := 0xe8410000 + host.tocSave.setWidth 32

/-- What the label `step_done` returns. -/
def stepDone (ret : Bool) : Result Bool × Ppc64Cursor :=
  if c.ip = 0 then (.ok false, c)
  else if c.ip &&& 3 ≠ 0 then (.ok ret, c)
  else
    match fetch32 host as c.ip with
    | .ok inst =>
        (.ok ret,
          if inst = host.tocReload then
            { c with loc := Function.update c.loc r2 (memLoc (c.cfa + host.tocSave)) }
          else c)
    | .error (.err _) => (.ok ret, c)
    | .error fault => (.error fault, c)

/-! ## The methods -/

/-- The step over a PLT entry. -/
def pltStep : Result Bool × Ppc64Cursor :=
  let retLoc := c.loc lr
  let c := { c with loc := Function.update (Function.update c.loc nip retLoc) lr nullLoc }
  -- the code is still negative, but `step_done` returns 0
  if retLoc.isNull host.localOnly then stepDone host as { c with ip := 0 } false
  else
    match retLoc.get host.localOnly as with
    | .error fault => (.error fault, c)
    | .ok ip => stepDone host as { c with ip } true

/-- The step along the chain of stack pointers. -/
def backChainStep : Result Bool × Ppc64Cursor :=
  match (memLoc c.cfa).get host.localOnly as with
  | .error fault => (.error fault, c)
  | .ok cfa =>
      let c := { c with cfa }
      if cfa = 0 then (.ok false, c)
      else
        match (memLoc (cfa + 16)).get host.localOnly as with
        | .error fault => (.error fault, c)
        | .ok ip => stepDone host as { c with ip, loc := fun _ => nullLoc } true

/-- Where a `ucontext_t` keeps a register, apart from the vector registers. The mark
    of a floating-point location, which only assertions look at, is left out. -/
def sigcontextLoc (ucontext : Word 64) (old : Fin 115 → Loc 64) (r : Fin 115) : Loc 64 :=
  let gpReg (x : Nat) : Loc 64 := memLoc (ucontext + host.gpRegs + 8 * BitVec.ofNat 64 x)
  if r ≤ r31 then gpReg r
  else if r ≤ f31 then memLoc (ucontext + host.fpRegs + 8 * BitVec.ofNat 64 (r - 32))
  else if r = nip then gpReg 32
  else if r = ctr then gpReg 35
  else if r = lr then gpReg 36
  else if r = xer then gpReg 37
  else if r = cr0 then gpReg 38
  else if r = framePointer then nullLoc
  else old r

/-- A vector register, VRSAVE or VSCR. -/
def isVector (r : Fin 115) : Bool := v0 ≤ r ∧ r ≤ vscr

/-- Where the vector registers are, if the kernel has saved them. -/
def vectorLoc (vRegs : Word 64) (old : Fin 115 → Loc 64) (r : Fin 115) : Loc 64 :=
  let vReg (x : Nat) : Loc 64 := memLoc (vRegs + 16 * BitVec.ofNat 64 x)
  if isVector r then
    if vRegs = 0 then nullLoc
    else if r = vscr then vReg 32
    else if r = vrsave then vReg 33
    else vReg (r - 77)
  else old r

/-- `ucontext`: behind the dummy signal frame, `__SIGNAL_FRAMESIZE` bytes. -/
def ucontextAddr : Word 64 := c.cfa + 128

/-- The step over a signal trampoline. -/
def signalStep : Result Bool × Ppc64Cursor :=
  let ucontext := ucontextAddr c
  let loc := sigcontextLoc host ucontext c.loc
  let c := { c with tdep := { rtSigframe := true, sigcontextAddr := ucontext } }
  match (loc r1).get host.localOnly as with
  | .error fault => (.error fault, c)
  | .ok cfa =>
      let c := { c with cfa }
      match (loc nip).get host.localOnly as with
      | .error fault => (.error fault, c)
      | .ok ip =>
          let c := { c with ip, loc }
          match (memLoc (ucontext + host.vRegs)).get host.localOnly as with
          | .error fault => (.error fault, c)
          | .ok vRegs => stepDone host as { c with loc := vectorLoc vRegs loc } true

/-- `unw_step`. -/
def unwStep (space : StepSpace 115 64) : Result Bool × Ppc64Cursor :=
  if unwIsSignalFrame space.as c then signalStep host space.as c
  else
    match dwarfStep host.target space c with
    | (.error (.err .noinfo), c) =>
        if isPltEntry space.as c then pltStep host space.as c else backChainStep host space.as c
    | (.error fault, c) => (.error fault, c)
    | (.ok more, c) => stepDone host space.as c more

end Source

end Libunwind.Ppc64
