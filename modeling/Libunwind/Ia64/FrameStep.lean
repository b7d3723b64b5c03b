import Libunwind.Ia64.BuildScript
import Libunwind.Library.Routine

/-! # The step to the next frame

Once a script has been built, `unw_step` runs it and takes over what it has found: the instruction
pointer, the backing store and the predicates of the next older frame. A frame that was interrupted
needs what cannot be described by unwind directives.
-/

namespace Libunwind.Ia64

/-- `unw_proc_info_t`, without the members that are about the unwind info. -/
structure ProcMembers where
  startIp : Word 64
  endIp : Word 64
  lsda : Word 64
  handler : Word 64
  gp : Word 64
  flags : Word 64
  deriving DecidableEq

/-- `UNW_PI_FLAG_IA64_RBS_SWITCH` -/
def flagRbsSwitch : Word 64 := 0x10000

/-- What a cursor has of its frame, with the ABI that is known for the address space. -/
structure Frame extends ScriptCursor where
  ip : Word 64
  cfm : Word 64
  pr : Word 64
  cfmLoc : Ia64Loc
  ecLoc : Ia64Loc
  sigcontextAddr : Word 64
  sigcontextOff : Word 64
  abiMarker : Word 16
  lastAbiMarker : Word 16
  /-- `c->as->abi` -/
  abi : Word 32
  /-- `c->pi`, as far as it is not about the unwind info -/
  pi : ProcMembers

/-- How the registers and the memory of a target are read. -/
structure Target where
  /-- `ia64_get` -/
  get : Ia64Loc → Except UnwError (Word 64)
  /-- `ia64_scratch_loc` -/
  scratchLoc : Frame → Word 64 → Ia64Loc × Byte

abbrev FrameRoutine := Routine Fault Frame

/-! ## Running a script to an error -/

/-- The instructions from the `k`-th one on, with the cursor as they leave it when one of them fails. -/
def runInsnsKept (get : Ia64Loc → Result (Word 64)) (scratchLoc : Word 64 → Ia64Loc × Byte) :
    Nat → List ScriptInsn → ScriptCursor → Result Unit × ScriptCursor
  | _, [], c => (.ok (), c)
  | k, insn :: rest, c =>
      if k + 1 < maxScriptLen then
        match runInsn get scratchLoc c insn with
        | .ok c => runInsnsKept get scratchLoc (k + 1) rest c
        | .error e => (.error e, c)
      else (.error .undefined, c)

/-- A script that is run to its end leaves what `run_script` returns. -/
theorem runInsnsKept_ok_iff {get : Ia64Loc → Result (Word 64)}
    {scratchLoc : Word 64 → Ia64Loc × Byte} {insns : List ScriptInsn} {k : Nat}
    {c c' : ScriptCursor} :
    runInsnsKept get scratchLoc k insns c = (.ok (), c') ↔
      runInsns get scratchLoc k insns c = .ok c' := by
  induction insns generalizing k c with
  | nil => simp [runInsnsKept, runInsns]
  | cons insn rest ih =>
      rw [runInsnsKept, runInsns]
      by_cases inside : k + 1 < maxScriptLen
      · rw [if_pos inside, if_pos inside]
        cases runInsn get scratchLoc c insn with
        | ok next => exact ih
        | error e => simp
      · rw [if_neg inside, if_neg inside]
        simp

/-! ## The backing store -/

/-- The area that is next, in a circle. -/
def areaAfter (curr : RbsIndex) : RbsIndex := ⟨(curr.val + 1) % 98, Nat.mod_lt _ (by decide)⟩

/-- `rbs_switch`; the base of an area is half of the address space below its end. -/
def rbsSwitch (savedBsp savedBspstore : Word 64) (savedRnatLoc : Ia64Loc) (c : RbsCursor) :
    RbsCursor :=
  let ndirty := rseNumRegs savedBspstore savedBsp
  let lo := rseSkipRegs c.bsp (-ndirty)
  let rbs := c.rbsArea c.rbsCurr
  let size := rbs.endAddr - lo
  let c := { c with rbsArea := Function.update c.rbsArea c.rbsCurr { rbs with size } }
  -- an area that is empty is overwritten
  let c :=
    if size ≠ 0 then
      let rbsCurr := areaAfter c.rbsCurr
      { c with
        rbsCurr
        rbsLeftEdge := if rbsCurr = c.rbsLeftEdge then areaAfter c.rbsLeftEdge else c.rbsLeftEdge }
    else c
  let rbsBase := savedBspstore - 0x8000000000000000
  let outer : RbsArea := ⟨savedBspstore, savedBspstore - rbsBase, savedRnatLoc⟩
  { c with
    rbsArea := Function.update c.rbsArea c.rbsCurr outer
    bsp := savedBsp }

namespace Frame

/-- `c->loc[i] = loc` -/
def setLoc (f : Frame) (i : Preg) (loc : Ia64Loc) : Frame :=
  { f with loc := Function.update f.loc i loc }

/-- The end of `check_rbs_switch` -/
def switchTo (f : Frame) (savedBsp savedBspstore : Word 64) : Frame :=
  if savedBsp = f.rbs.bsp then f
  else { f with rbs := rbsSwitch savedBsp savedBspstore (f.loc .rnat) f.rbs }

end Frame

/-! ## ABI markers -/

/-- `ABI_MARKER_OLD_LINUX_SIGTRAMP` and so on -/
def oldLinuxSigtramp : Word 16 := 0x073
def oldLinuxInterrupt : Word 16 := 0x069
def hpUxSigtramp : Word 16 := 0x101
def linuxSigtrampMarker : Word 16 := 0x373
def linuxInterruptMarker : Word 16 := 0x369

/-- `ABI_LINUX`, `ABI_HPUX` -/
def abiLinux : Word 32 := 1
def abiHpux : Word 32 := 2

/-- `IA64_LOC_UC_REG` -/
def ia64LocUcReg (r a : Word 64) : Ia64Loc := ⟨r <<< 2, a ||| 3⟩

/-- The number that a preserved register has for `uc_access`. -/
def ucRegnum (i : Preg) : Word 64 :=
  let since (first : Preg) : Word 64 := BitVec.ofNat 64 (i.val - first.val)
  if .r4 ≤ i ∧ i ≤ .r7 then unwGr + 4 + since .r4
  else if .nat4 ≤ i ∧ i ≤ .nat7 then unwNat + 4 + since .nat4
  else if .b1 ≤ i ∧ i ≤ .b5 then unwBr + 1 + since .b1
  else if .f2 ≤ i ∧ i ≤ .f5 then unwFr + 2 + since .f2
  else if .f16 ≤ i then unwFr + 16 + since .f16
  else if i = .psp then unwGr + 12
  else if i = .bsp then 401
  else if i = .bspstore then 402
  else if i = .pfs then 448
  else if i = .rnat then 403
  else if i = .ip then 523
  else if i = .unat then 420
  else if i = .pr then 520
  else if i = .lc then 449
  else 424

section UpdateFrameState

variable (target : Target)

def ia64Get (loc : Ia64Loc) : FrameRoutine (Word 64) := .given (ofAccess (target.get loc))

/-- `linux_sigtramp`; yields `*num_regsp`. -/
def linuxSigtramp (prevCfmLoc : Ia64Loc) : FrameRoutine (Word 64) := do
  let f ← get
  let scAddr ← ia64Get target (ia64LocAddr (f.sp + 0x10 + 0x10) 0)
  modify fun f => { f with sigcontextAddr := scAddr }
  let f ← get
  -- kernels before 2.4.19 and 2.5.10 had buggy unwind info for sigtramp
  if ¬IsRegLoc (f.loc .ip) ∧ ia64GetAddr (f.loc .ip) = scAddr + 0x88 + 8 then
    set { f.setLoc .ip (ia64LocAddr (scAddr + 0x28) 0) with cfmLoc := ia64LocAddr (scAddr + 0x30) 0 }
  modify fun f => { f.setLoc .pfs (ia64LocAddr (scAddr + 0x70) 0) with ecLoc := prevCfmLoc }
  pure (f.cfm &&& 0x7f)

/-- `linux_interrupt` -/
def linuxInterrupt (prevCfmLoc : Ia64Loc) (marker : Word 16) : FrameRoutine (Word 64) := do
  let f ← get
  let scAddr := f.sp + 0x10
  let numRegs := if f.pr &&& (1 <<< 5) ≠ 0 then f.cfm &&& 0x7f else 0
  let pfsOff := if marker = oldLinuxInterrupt then 0x20 else 96
  set { f.setLoc .pfs (ia64LocAddr (scAddr + pfsOff) 0) with
    sigcontextAddr := scAddr
    ecLoc := prevCfmLoc }
  pure numRegs

/-- `hpux_sigtramp` -/
def hpuxSigtramp (prevCfmLoc : Ia64Loc) : FrameRoutine (Word 64) := do
  let f ← get
  -- the address of `ucontext_t` is in r32
  let (scLoc, _) ← Routine.given (ia64GetStacked f.rbs 32)
  let scAddr ← ia64Get target scLoc
  set { f with
    sigcontextAddr := scAddr
    cfmLoc := ia64LocUcReg 521 scAddr
    loc := fun i =>
      if i = Preg.priUnatGr then f.loc i
      else if i = Preg.priUnatMem then ia64NullLoc
      else ia64LocUcReg (ucRegnum i) scAddr
    pi := { f.pi with flags := f.pi.flags ||| flagRbsSwitch } }
  let f ← get
  let cfm ← ia64Get target f.cfmLoc
  modify fun f => { f with cfm }
  let psp ← ia64Get target (f.loc .psp)
  modify fun f => { f with psp }
  let bsp ← ia64Get target (f.loc .bsp)
  let bspstore ← ia64Get target (f.loc .bspstore)
  if bspstore < bsp then
    modify fun f => { f with rbs := rbsSwitch bsp bspstore (ia64LocUcAddr (bsp ||| 0x1f8) 0) f.rbs }
  modify fun f => { f with ecLoc := prevCfmLoc }
  pure 0

/-- `check_rbs_switch` -/
def checkRbsSwitch : FrameRoutine Unit := do
  let f ← get
  if f.pi.flags &&& flagRbsSwitch ≠ 0 then
    let savedBsp ← ia64Get target (f.loc .bsp)
    let savedBspstore ← ia64Get target (f.loc .bspstore)
    modify fun f => f.switchTo savedBsp savedBspstore
  else if (f.abiMarker = linuxSigtrampMarker ∨ f.abiMarker = oldLinuxSigtramp) ∧
      ¬IsRegLoc (f.loc .bsp) ∧ ia64GetAddr (f.loc .bsp) = f.sigcontextAddr + 0x48 then
    -- the comparison with 0 is part of what is assigned to `ret`, so that an error is not one
    match target.get (ia64LocAddr (f.sigcontextAddr + 0x48) 0),
        target.get (ia64LocAddr (f.sigcontextAddr + 0x9d8) 0) with
    | .ok savedBsp, .ok loadrs =>
        let ndirty := rseNumRegs (f.rbs.bsp - (loadrs >>> 16)) f.rbs.bsp
        modify fun f => f.switchTo savedBsp (rseSkipRegs savedBsp (-ndirty))
    | _, _ => pure ()
  else pure ()

/-- `ia64_get (c, c->loc[IA64_REG_IP], &ip)`, and the update of `c->ip` -/
def updateIp : FrameRoutine (Word 64) := do
  let f ← get
  let ip ← ia64Get target (f.loc .ip)
  modify fun f => { f with ip }
  pure ip

/-- What `update_frame_state` does for the ABI marker of the frame; yields the size of the frame. -/
def enterMarkedFrame (prevCfmLoc : Ia64Loc) : FrameRoutine (Word 64) := do
  modify fun f => { f with lastAbiMarker := f.abiMarker }
  let f ← get
  if f.abiMarker = linuxSigtrampMarker ∨ f.abiMarker = oldLinuxSigtramp then
    modify fun f => { f with abi := abiLinux }
    linuxSigtramp target prevCfmLoc
  else if f.abiMarker = oldLinuxInterrupt ∨ f.abiMarker = linuxInterruptMarker then
    modify fun f => { f with abi := abiLinux }
    linuxInterrupt prevCfmLoc f.abiMarker
  else if f.abiMarker = hpUxSigtramp then
    modify fun f => { f with abi := abiHpux }
    hpuxSigtramp target prevCfmLoc
  else throw (.err .inval)

/-- `update_frame_state` behind the ABI marker -/
def enterFrame (prev : Frame) (numRegs : Word 64) : FrameRoutine Unit := do
  let f ← get
  if f.loc .bsp ≠ ia64NullLoc then checkRbsSwitch target
  modify fun f => { f with
    rbs := { f.rbs with bsp := rseSkipRegs f.rbs.bsp (-numRegs) }
    sp := f.psp
    abiMarker := 0 }
  let f ← get
  if f.ip = prev.ip ∧ f.sp = prev.sp ∧ f.rbs.bsp = prev.rbs.bsp then throw (.err .badframe)
  else
    -- the saved `ar.unat` becomes the primary UNaT
    set (f.setLoc .priUnatMem (f.loc .unat))
    let f ← get
    let pr ← ia64Get target (f.loc .pr)
    modify fun f => { f with pr }

/-- `update_frame_state`; yields whether it gets to its end, where it sets `c->pi_valid` to 0. -/
def updateFrameState : FrameRoutine Bool := do
  let prev ← get
  let ip ← updateIp target
  if ip &&& 0xc ≠ 0 then throw (.err .invalidip)
  else
    modify fun f => { f with cfmLoc := f.loc .pfs }
    let f ← get
    let cfm ← ia64Get target f.cfmLoc
    modify fun f => { f with cfm, ecLoc := f.cfmLoc }
    let f ← get
    if f.abiMarker ≠ 0 then
      let numRegs ← enterMarkedFrame target prev.cfmLoc
      modify fun f => { f with sigcontextOff := f.sigcontextAddr - f.sp }
      let ip ← updateIp target
      if ip = 0 then pure false
      else
        enterFrame target prev numRegs
        pure true
    else
      enterFrame target prev ((f.cfm >>> 7) &&& 0x7f)
      pure true

/-- `run_script`, as far as the frame goes; `abiMarker` is that of the script, and `pi` its proc info. -/
def runScriptOn (pi : ProcMembers) (abiMarker : Word 16) (insns : List ScriptInsn) :
    FrameRoutine Unit := do
  modify fun f => { f with pi, abiMarker }
  .ofOutcome fun f =>
    let (ret, c) := runInsnsKept (fun loc => ofAccess (target.get loc)) (target.scratchLoc f) 0 insns
      f.toScriptCursor
    (ret, { f with toScriptCursor := c })

/-- The end of `unw_step`, from `run_script` on -/
def stepWith (pi : ProcMembers) (abiMarker : Word 16) (insns : List ScriptInsn) :
    FrameRoutine Bool := do
  runScriptOn target pi abiMarker insns
  updateFrameState target

end UpdateFrameState

end Libunwind.Ia64
