import Libunwind.Library.BitField
import Libunwind.Dwarf.Step

/-! # Frames of ARM

The target of ARM Linux. `tdep_stash_frame` records how a frame is laid out while
the slow path steps over it, and `arm_handle_signal_frame` steps over the frame of a
signal trampoline.
-/

namespace Libunwind.ArmLinux

open Dwarf

/-- ARM preserves 128 registers, and literals are their numbers. -/
instance neZeroArm : NeZero 128 := ⟨by decide⟩

def r7 : Fin 128 := 7
def sp : Fin 128 := 13
def lr : Fin 128 := 14
def pc : Fin 128 := 15

/-- `unw_tdep_frame_type_t`. -/
inductive FrameType where
  | syscall
  | standard
  | sigreturn
  | other
  | guessed
  deriving DecidableEq, Repr

/-- `unw_tdep_frame_t`, with its bit-fields; the defaults are those of
    `trace_init_addr`. -/
structure Frame where
  frameType : FrameType := .other
  lastFrame : Bool := false
  cfaRegSp : Bool := true
  cfaRegOffset : BitVec 30 := 0
  r7CfaOffset : BitVec 30 := -1
  lrCfaOffset : BitVec 30 := -1
  spCfaOffset : BitVec 30 := -1
  deriving DecidableEq, Repr

/-- `sigcontext_format`, as Linux sets it. -/
inductive SigcontextFormat where
  | none
  | linuxSigframe
  | linuxRtSigframe
  | linuxOldSigframe
  | linuxOldRtSigframe
  deriving DecidableEq, Repr

/-- What `struct cursor` has besides the DWARF cursor. -/
structure Extra where
  frameInfo : Frame := {}
  sigcontextFormat : SigcontextFormat := .none
  sigcontextAddr : Word 32 := 0
  sigcontextSp : Word 32 := 0
  sigcontextPc : Word 32 := 0
  /-- The registers of the initial context, `uc->regs`. -/
  ucRegs : Nat → Word 32 := fun _ => 0

abbrev ArmCursor := Cursor 128 32 Extra

/-- How libunwind was built, and what it finds in its host. -/
structure Host where
  localOnly : Bool
  /-- `DWARF_REG_LOC`. -/
  regLoc : Int → Loc 32 := fun r => ⟨BitVec.ofInt 32 r, .reg⟩

/-- A register that a standard frame keeps, drops, or saves near the CFA. -/
def isUnsavedOrNear (rule : Rule 32) : Bool :=
  match rule.how with
  | .undef | .same => true
  | .cfarel => decide (labs rule.val < 2 ^ 29) && rule.val + 1 != 0
  | _ => false

/-- Its rule may also make it the CFA. -/
def isStandardRule (rule : Rule 32) : Bool := decide (rule.how = .cfa) || isUnsavedOrNear rule

/-- CFA is register-relative offset off R7 or SP; return address is saved in LR;
    R7, LR and SP are unsaved or saved at CFA+offset, offset != -1. Whether the CFA is
    the rule of LR is asked of R7. -/
def isStandard (rs : RegState 128 32) : Bool :=
  let cfaRule := rs.reg (cfaRegColumn 128)
  decide (cfaRule.how = .reg) && (cfaRule.val == 7 || cfaRule.val == 13) &&
    decide (labs (rs.reg (cfaOffColumn 128)).val < 2 ^ 29) && rs.retAddrColumn == 14 &&
    isStandardRule (rs.reg (regColumn r7)) &&
    (decide ((rs.reg (regColumn r7)).how = .cfa) || isUnsavedOrNear (rs.reg (regColumn lr))) &&
    isStandardRule (rs.reg (regColumn sp))

/-- The offset at which a rule saves its register, or the one recorded before. -/
def stashOffset (rule : Rule 32) (recorded : BitVec 30) : BitVec 30 :=
  match rule.how with
  | .cfarel => rule.val.setWidth 30
  | .cfa => 0
  | _ => recorded

/-- `tdep_stash_frame`, on the frame info `f`. -/
def stashFrame (rs : RegState 128 32) (f : Frame) : Frame :=
  if f.frameType = .other ∧ isStandard rs then
    { f with
      frameType := .standard
      cfaRegSp := (rs.reg (cfaRegColumn 128)).val == 13
      cfaRegOffset := (rs.reg (cfaOffColumn 128)).val.setWidth 30
      r7CfaOffset := stashOffset (rs.reg (regColumn r7)) f.r7CfaOffset
      lrCfaOffset := stashOffset (rs.reg (regColumn lr)) f.lrCfaOffset
      spCfaOffset := stashOffset (rs.reg (regColumn sp)) f.spCfaOffset }
  else f

/-- `tdep_access_reg`, for reading. In a local build, a caller-saved register without
    a location has its value in the initial context. -/
def accessReg (host : Host) (as : AddrSpace 32) (c : ArmCursor) (reg : Int) : Result (Word 32) :=
  if reg = 15 then pure c.ip
  else if reg = 13 ∨ reg = 288 then pure c.cfa
  else if valid : 0 ≤ reg ∧ reg.toNat < 15 then
    let loc := c.loc ⟨reg.toNat, Nat.lt_trans valid.2 (by decide)⟩
    if host.localOnly ∧ loc.isNull true ∧ (reg ≤ 3 ∨ reg = 12) then pure (c.tdep.ucRegs reg.toNat)
    else loc.get host.localOnly as
  else .error (.err .badreg)

/-- The target of ARM Linux as this host builds it. -/
def Host.target (host : Host) : Target 128 32 Extra where
  cfi := { sp }
  localOnly := host.localOnly
  valLocs := false
  regLoc := host.regLoc
  toUnwRegnum r := pure (if r < 16 then r else 0)
  regIp := 15
  accessReg := accessReg host
  stashFrame _ c rs := { c.tdep with frameInfo := stashFrame rs c.tdep.frameInfo }

/-! ## Signal frames -/

/-- The first words of the sequences that make the system call `nr`: in ARM code for
    either ABI, in Thumb and in Thumb2. -/
def sigreturnWords (nr : Word 32) : List (Word 32) :=
  [0xe3a07000 ||| nr, 0xef000000 ||| nr ||| 0x900000, 0xdf002700 ||| nr,
    ((0x0700 ||| nr) <<< 16) ||| 0xf04f]

/-- `unw_is_signal_frame`: no signal frame, or one that is real-time or not. -/
def unwIsSignalFrame (as : AddrSpace 32) (c : ArmCursor) : Result (Option Bool) := do
  -- the least bit denotes the mode
  let w0 ← ofAccess (as.accessMem (c.ip &&& ~~~1))
  if (sigreturnWords 119).contains w0 then pure (some false)
  else if (sigreturnWords 173).contains w0 then pure (some true)
  else pure none

/-- `LINUX_UC_MCONTEXT_OFF` -/
def ucMcontextOff : Word 32 := 0x14

/-- The size of a `siginfo_t`. -/
def siginfoSize : Word 32 := 128

/-- Where a signal frame at `spAddr` has its signal context, by the first word `sp` of it. -/
def sigcontextAt (rt : Bool) (sp spAddr : Word 32) : SigcontextFormat × Word 32 :=
  if rt then
    if sp = spAddr + 8 then (.linuxOldRtSigframe, spAddr + 8 + siginfoSize + ucMcontextOff)
    else (.linuxRtSigframe, spAddr + siginfoSize + ucMcontextOff)
  else if sp = 0x5ac3c35a then (.linuxSigframe, spAddr + ucMcontextOff)
  else (.linuxOldSigframe, spAddr)

/-- Where a signal context keeps a register. -/
def sigcontextLoc (scAddr : Word 32) (r : Fin 128) : Loc 32 :=
  if r ≤ pc then memLoc (scAddr + 0x0c + 4 * BitVec.ofNat 32 r) else nullLoc

section Signal

variable (host : Host) (as : AddrSpace 32) (c : ArmCursor)

/-- The cursor that `arm_handle_signal_frame` makes of a signal frame whose first word
    is `word`. -/
def signalStep (rt : Bool) (word : Word 32) : ArmCursor :=
  let (format, scAddr) := sigcontextAt rt word c.cfa
  let loc := sigcontextLoc scAddr
  { c with
    tdep := { c.tdep with
      frameInfo := { c.tdep.frameInfo with
        frameType := .sigreturn, cfaRegOffset := (scAddr - c.cfa).setWidth 30 }
      sigcontextFormat := format
      sigcontextAddr := scAddr
      sigcontextSp := c.cfa
      sigcontextPc := c.ip }
    loc
    cfa := (loc sp).getInto host.localOnly as c.cfa
    ip := (loc pc).getInto host.localOnly as c.ip
    piValid := false
    usePrevInstr := false }

/-- `arm_handle_signal_frame` -/
def handleSignalFrame : Result Bool × ArmCursor :=
  match (memLoc c.cfa).get host.localOnly as with
  | .error _ => (.error (.err .unspec), c)
  | .ok word =>
      match unwIsSignalFrame as c with
      | .ok (some rt) => (.ok true, signalStep host as c rt word)
      | _ =>
          (.error (.err .unspec),
            { c with tdep := { c.tdep with sigcontextSp := c.cfa, sigcontextPc := c.ip } })

variable {host as c}

/-- What a handled signal frame leads to. -/
theorem handleSignalFrame_eq_ok {more : Bool} {c' : ArmCursor}
    (handled : handleSignalFrame host as c = (.ok more, c')) :
    ∃ rt word, (memLoc c.cfa).get host.localOnly as = .ok word ∧
      unwIsSignalFrame as c = .ok (some rt) ∧ c' = signalStep host as c rt word := by
  unfold handleSignalFrame at handled
  split at handled
  next => simp at handled
  next word read =>
    split at handled
    next rt isSignal => exact ⟨rt, word, read, isSignal, (congrArg Prod.snd handled).symm⟩
    next => simp at handled

end Signal

end Libunwind.ArmLinux
