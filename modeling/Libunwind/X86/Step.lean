import Libunwind.Dwarf.Step

/-! # `unw_step` on x86

A signal trampoline is recognised by its code, and every other frame is stepped over by the unwind
tables, or by the chain of frame pointers where these know nothing of it. The reads of a step are
validated.
-/

namespace Libunwind.X86

open Dwarf

def eax : Fin 17 := 0
def ecx : Fin 17 := 1
def edx : Fin 17 := 2
def ebx : Fin 17 := 3
def esp : Fin 17 := 4
def ebp : Fin 17 := 5
def esi : Fin 17 := 6
def edi : Fin 17 := 7
def eip : Fin 17 := 8
def eflags : Fin 17 := 9
def trapno : Fin 17 := 10

/-- `sigcontext_format`, as Linux has it. -/
inductive SigcontextFormat where
  | none
  | linuxSigframe
  | linuxRtSigframe
  deriving DecidableEq, Repr

/-- What `struct cursor` has besides the DWARF cursor. -/
structure Extra where
  sigcontextFormat : SigcontextFormat := .none
  sigcontextAddr : Word 32 := 0
  validate : Int := 0
  deriving DecidableEq, Repr

abbrev X86Cursor := Cursor 17 32 Extra

/-- `c->validate = validate` -/
def setValidate (c : X86Cursor) (validate : Int) : X86Cursor :=
  { c with tdep := { c.tdep with validate } }

/-- How libunwind was built. The macro that tests for null is the same in both builds. -/
structure Host where
  /-- `DWARF_REG_LOC`. -/
  regLoc : Int → Loc 32 := fun r => ⟨BitVec.ofInt 32 r, .reg⟩

/-! ## Registers -/

/-- `dwarf_to_unw_regnum_map` -/
def dwarfToUnwRegnumMap : List Int :=
  [0, 2, 1, 3, 7, 6, 4, 5, 8, 9, 10, 11, 12, 13, 14, 15, 16, 17, 18]

/-- The columns of the registers that are read from their locations. -/
def column : Int → Option (Fin 17)
  | 0 => some eax
  | 1 => some edx
  | 2 => some ecx
  | 3 => some ebx
  | 4 => some esi
  | 5 => some edi
  | 6 => some ebp
  | 7 => some esp
  | 8 => some eip
  | 9 => some eflags
  | 10 => some trapno
  | _ => none

/-- `tdep_access_reg`, for reading; the registers left out here have no DWARF number. -/
def accessReg (as : AddrSpace 32) (c : X86Cursor) (reg : Int) : Result (Word 32) :=
  match column reg with
  | some r =>
      if reg = 0 ∨ reg = 1 then
        match c.ehArgs reg.toNat with
        | some arg => pure arg
        | none => (c.loc r).get false as
      else (c.loc r).get false as
  | none => .error (.err .badreg)

/-- The target of x86 Linux. -/
def Host.target (host : Host) : Target 17 32 Extra where
  cfi := { sp := esp }
  regLoc := host.regLoc
  toUnwRegnum r :=
    if r < 0 then .error .undefined else pure ((dwarfToUnwRegnumMap[r.toNat]?).getD 0)
  regIp := 8
  accessReg := accessReg

section Source

variable (as : AddrSpace 32) (c : X86Cursor)

/-! ## Signal frames -/

/-- `unw_is_signal_frame` -/
def unwIsSignalFrame : Bool :=
  match as.accessMem c.ip, as.accessMem (c.ip + 4) with
  | .ok w0, .ok w1 =>
      (w0 == 0x0077b858 && w1 == 0x80cd0000) || (w0 == 0x0000adb8 && w1 &&& 0xffffff == 0x80cd00)
  | _, _ => false

/-- What a handler got besides the signal number: the format of the frame, the address that
    the cursor remembers, and that of the `sigcontext`. -/
structure SignalArgs where
  format : SigcontextFormat
  addr : Word 32
  scAddr : Word 32
  deriving DecidableEq, Repr

/-- Where the two pointers that `SA_SIGINFO` adds do not lead into the frame, a `sigcontext`
    is in their place. -/
def signalArgs : Result SignalArgs := do
  let siginfoPtr ← (memLoc (c.cfa + 4)).get false as
  let sigcontextPtr ← (memLoc (c.cfa + 8)).get false as
  if siginfoPtr < c.cfa ∨ c.cfa + 256 < siginfoPtr ∨ sigcontextPtr < c.cfa ∨
      c.cfa + 256 < sigcontextPtr then
    pure ⟨.linuxSigframe, c.cfa + 4, c.cfa + 4⟩
  else pure ⟨.linuxRtSigframe, sigcontextPtr, sigcontextPtr + 0x14⟩

/-- Where a `sigcontext` has a register. -/
def sigcontextOff (r : Fin 17) : Option (Word 32) :=
  if r = eax then some 0x2c
  else if r = ecx then some 0x28
  else if r = edx then some 0x24
  else if r = ebx then some 0x20
  else if r = ebp then some 0x18
  else if r = esi then some 0x14
  else if r = edi then some 0x10
  else if r = eip then some 0x38
  else if r = esp then some 0x1c
  else none

def sigcontextLoc (scAddr : Word 32) (r : Fin 17) : Loc 32 :=
  match sigcontextOff r with
  | some off => memLoc (scAddr + off)
  | none => nullLoc

/-- `x86_handle_signal_frame`. Whatever happens, it returns 0. -/
def handleSignalFrame : X86Cursor :=
  match signalArgs as c with
  | .error _ => c
  | .ok args =>
      let c := { c with
        tdep := { c.tdep with sigcontextFormat := args.format, sigcontextAddr := args.addr } }
      match (memLoc (args.scAddr + 0x1c)).get false as with
      | .error _ => c
      | .ok cfa =>
          let loc := sigcontextLoc args.scAddr
          { c with
            loc
            ip := (loc eip).getInto false as c.ip
            cfa := (loc esp).getInto false as cfa
            usePrevInstr := false }

/-! ## The frame chain -/

/-- Where the frame chain says that a frame has its registers. -/
def chainLoc (frame : Word 32) (r : Fin 17) : Loc 32 :=
  if r = ebp then memLoc frame
  else if r = esp then ⟨frame + 8, .val⟩
  else if r = eip then memLoc (frame + 4)
  else nullLoc

/-- The step along the frame chain. -/
def frameChain : Result Bool × X86Cursor :=
  match (c.loc ebp).get false as with
  | .error fault => (.error fault, c)
  | .ok frame =>
      let c := { c with cfa := frame + 8, loc := chainLoc frame, usePrevInstr := true }
      if (c.loc ebp).isNull false then (.ok false, { c with ip := 0 })
      else
        match (c.loc eip).get false as with
        | .error fault => (.error fault, c)
        | .ok ip => (.ok (ip != 0), { c with ip })

end Source

/-- `unw_step`; what an accessor reads depends on the flag. -/
def unwStep (host : Host) (space : Int → StepSpace 17 32) (c : X86Cursor) :
    Result Bool × X86Cursor :=
  let validate := c.tdep.validate
  let c := setValidate c 1
  if unwIsSignalFrame (space 1).as c then (.ok true, handleSignalFrame (space 1).as c)
  else
    let (ret, c) := dwarfStep host.target (space 1) c
    let c := setValidate c validate
    match ret with
    | .ok _ => (.ok (c.ip != 0), c)
    | .error (.err .noinfo) => frameChain (space validate).as c
    | .error fault => (.error fault, c)

/-! ## A step out of a signal frame -/

section Signal

variable {host : Host} {as : AddrSpace 32} {space : Int → StepSpace 17 32} {c c' : X86Cursor}

/-- The CFA and the instruction pointer are those of the saved context. -/
def Interrupted (as : AddrSpace 32) (c c' : X86Cursor) : Prop :=
  ∃ args, signalArgs as c = .ok args ∧
    (sigcontextLoc args.scAddr esp).get false as = .ok c'.cfa ∧
    (sigcontextLoc args.scAddr eip).get false as = .ok c'.ip

/-- The arguments of the handler and the two registers of the saved context can be read. -/
def ContextReadable (as : AddrSpace 32) (c : X86Cursor) : Prop :=
  ∃ args cfa ip, signalArgs as c = .ok args ∧
    (sigcontextLoc args.scAddr esp).get false as = .ok cfa ∧
    (sigcontextLoc args.scAddr eip).get false as = .ok ip

/-- A step is positive only out of the frame, it fails where it does not get out, and it leaves
    the flag as it was. -/
structure StepsOut (as : AddrSpace 32) (c : X86Cursor) (stepped : Result Bool × X86Cursor) :
    Prop where
  moved : stepped.1 = .ok true → Interrupted as c stepped.2
  failed : ¬Interrupted as c stepped.2 → IsNegative stepped.1
  validate : stepped.2.tdep.validate = c.tdep.validate

theorem handleSignalFrame_validate (as : AddrSpace 32) (c : X86Cursor) :
    (handleSignalFrame as c).tdep.validate = c.tdep.validate := by
  unfold handleSignalFrame
  split
  next => rfl
  next args found =>
    dsimp only
    split <;> rfl

theorem handleSignalFrame_interrupted :
    Interrupted as c (handleSignalFrame as c) ↔ ContextReadable as c := by
  constructor
  · intro interrupted
    obtain ⟨args, found, cfa, ip⟩ := interrupted
    exact ⟨args, _, _, found, cfa, ip⟩
  · intro readable
    obtain ⟨args, cfa, ip, found, cfaRead, ipRead⟩ := readable
    have first : (memLoc (args.scAddr + 0x1c)).get false as = .ok cfa := cfaRead
    refine ⟨args, found, ?_, ?_⟩
    · simp only [handleSignalFrame, found, first, Loc.getInto, cfaRead]
    · simp only [handleSignalFrame, found, first, Loc.getInto, ipRead]

theorem unwStep_signal (trampoline : unwIsSignalFrame (space 1).as c = true) :
    unwStep host space c = (.ok true, handleSignalFrame (space 1).as (setValidate c 1)) := by
  unfold unwStep
  exact if_pos trampoline

/-- A step out of a signal frame does so if the saved context can be read, and reads were
    validated before. -/
theorem unwStep_stepsOut_iff (trampoline : unwIsSignalFrame (space 1).as c = true) :
    StepsOut (space 1).as c (unwStep host space c) ↔
      c.tdep.validate = 1 ∧ ContextReadable (space 1).as c := by
  have interrupted : Interrupted (space 1).as c (handleSignalFrame (space 1).as (setValidate c 1)) ↔
      ContextReadable (space 1).as c :=
    handleSignalFrame_interrupted (c := setValidate c 1)
  rw [unwStep_signal trampoline]
  constructor
  · intro out
    have kept := out.validate
    rw [handleSignalFrame_validate] at kept
    exact ⟨kept.symm, interrupted.mp (out.moved rfl)⟩
  · intro good
    obtain ⟨validated, readable⟩ := good
    refine ⟨fun _ => interrupted.mpr readable, fun stays => ?_, ?_⟩
    · exact absurd (interrupted.mpr readable) stays
    · rw [handleSignalFrame_validate, validated]
      rfl

/-- On the other ways the flag is as it was. -/
theorem unwStep_validate (code : unwIsSignalFrame (space 1).as c = false) :
    (unwStep host space c).2.tdep.validate = c.tdep.validate := by
  have same : unwIsSignalFrame (space 1).as (setValidate c 1) = false := code
  have chained (as : AddrSpace 32) (c : X86Cursor) :
      (frameChain as c).2.tdep.validate = c.tdep.validate := by
    unfold frameChain
    split
    next => rfl
    next =>
      dsimp only
      split
      next => rfl
      next => split <;> rfl
  unfold unwStep
  simp only [same, Bool.false_eq_true, if_false]
  split
  next => rfl
  next => exact chained _ _
  next => rfl

end Signal

/-! ## Processes in a handler -/

/-- `mov $0x77, %eax` and `int $0x80`, behind the `pop` that takes the signal number. -/
def sigreturnAt (ip : Word 32) : List (Word 32 × Word 32) := [(ip, 0x0077b858), (ip + 4, 0x80cd0000)]

/-- A cursor that has come to the trampoline. -/
def handlerCursor (validate : Int) : X86Cursor where
  cfa := 0xffffd000
  ip := 0xf7fd0000
  loc _ := nullLoc
  tdep := { validate }

/-- The arguments of the handler are out of reach. -/
def lostProcess : AddrSpace 32 := processOf [] (sigreturnAt 0xf7fd0000)

/-- The step says that it got out of the frame, and is where it was. -/
theorem lostProcess_stays :
    (unwStep {} (fun _ => bareSpace lostProcess) (handlerCursor 0)).1 = .ok true ∧
      (unwStep {} (fun _ => bareSpace lostProcess) (handlerCursor 0)).2 =
        setValidate (handlerCursor 0) 1 ∧
      ¬StepsOut lostProcess (handlerCursor 0)
        (unwStep {} (fun _ => bareSpace lostProcess) (handlerCursor 0)) := by
  refine ⟨rfl, rfl, fun out => ?_⟩
  obtain ⟨args, found, -⟩ := out.moved rfl
  have unreadable : signalArgs lostProcess (handlerCursor 0) = .error (.err .unspec) := rfl
  rw [unreadable] at found
  cases found

/-- The handler was called without `SA_SIGINFO`; the interrupted code is at 0x8048000. -/
def interruptedProcess : AddrSpace 32 :=
  processOf [] (sigreturnAt 0xf7fd0000 ++
    [(0xffffd004, 0), (0xffffd008, 0), (0xffffd020, 0xffffd100), (0xffffd03c, 0x8048000)])

def interruptedSpace (_validate : Int) : StepSpace 17 32 := bareSpace interruptedProcess

theorem interruptedProcess_stepsOut :
    StepsOut (interruptedSpace 1).as (handlerCursor 1)
      (unwStep {} interruptedSpace (handlerCursor 1)) := by
  have trampoline : unwIsSignalFrame (interruptedSpace 1).as (handlerCursor 1) = true := rfl
  have readable : ContextReadable (interruptedSpace 1).as (handlerCursor 1) :=
    ⟨⟨.linuxSigframe, 0xffffd004, 0xffffd004⟩, 0xffffd100, 0x8048000, rfl, rfl, rfl⟩
  exact (unwStep_stepsOut_iff trampoline).mpr ⟨rfl, readable⟩

end Libunwind.X86
