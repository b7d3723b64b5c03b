import Libunwind.Library.BitField
import Libunwind.Dwarf.ApplyRegState

/-! # Frames of aarch64

The target of aarch64 Linux. `tdep_stash_frame` records how a frame is laid out
while the slow path steps over it.
-/

namespace Libunwind.AArch64

open Dwarf

/-- aarch64 preserves 97 registers, and literals are their numbers. -/
instance neZeroA64 : NeZero 97 := ⟨by decide⟩

def x29 : Fin 97 := 29
def x30 : Fin 97 := 30
def sp : Fin 97 := 31
def pc : Fin 97 := 32
def pstate : Fin 97 := 33
def raSignState : Fin 97 := 34
def vg : Fin 97 := 46
def v0 : Fin 97 := 64
def v31 : Fin 97 := 95

/-- `unw_tdep_frame_type_t`. -/
inductive FrameType where
  | standard
  | sigreturn
  | other
  | guessed
  deriving DecidableEq, Repr

/-- `unw_tdep_frame_t`, with its bit-fields; the defaults are those of
    `trace_init_addr`. -/
structure Frame where
  frameType : FrameType := .other
  lastFrame : Bool := false
  cfaRegSp : Bool := true
  cfaRegOffset : BitVec 30 := 0
  fpCfaOffset : BitVec 30 := -1
  lrCfaOffset : BitVec 30 := -1
  spCfaOffset : BitVec 30 := -1
  deriving DecidableEq, Repr

/-- What `struct cursor` has besides the DWARF cursor. -/
structure Extra where
  frameInfo : Frame := {}
  /-- `sigcontext_format` is `AARCH64_SCF_LINUX_RT_SIGFRAME`. -/
  rtSigframe : Bool := false
  sigcontextAddr : Word 64 := 0
  sigcontextSp : Word 64 := 0
  sigcontextPc : Word 64 := 0
  deriving DecidableEq, Repr

abbrev A64Cursor := Cursor 97 64 Extra

/-- How libunwind was built, and what it finds in its host. -/
structure Host where
  localOnly : Bool
  /-- `DWARF_REG_LOC`. -/
  regLoc : Int → Loc 64 := fun r => ⟨BitVec.ofInt 64 r, .reg⟩
  /-- `tdep_strip_ptrauth_insn_mask`. -/
  stripPtrauth : Word 64 → Word 64 := id
  /-- The `get_proc_name` accessor: the offset into the procedure. -/
  getProcName : Word 64 → Option (Word 64) := fun _ => none

/-- A register that a standard frame keeps, drops, or saves near the CFA. -/
def isStandardRule (rule : Rule 64) : Bool :=
  match rule.how with
  | .undef | .same | .cfa => true
  | .cfarel => decide (labs rule.val < 2 ^ 29) && rule.val + 1 != 0
  | _ => false

/-- CFA is register-relative offset off FP or SP; return address is saved in LR;
    FP, LR and SP are unsaved or saved at CFA+offset, offset != -1. -/
def isStandard (rs : RegState 97 64) : Bool :=
  let cfaRule := rs.reg (cfaRegColumn 97)
  decide (cfaRule.how = .reg) && (cfaRule.val == 29 || cfaRule.val == 31) &&
    decide (labs (rs.reg (cfaOffColumn 97)).val < 2 ^ 29) && rs.retAddrColumn == 30 &&
    isStandardRule (rs.reg (regColumn x29)) && isStandardRule (rs.reg (regColumn x30)) &&
    isStandardRule (rs.reg (regColumn sp))

/-- The offset at which a rule saves its register, or the one recorded before. -/
def stashOffset (rule : Rule 64) (recorded : BitVec 30) : BitVec 30 :=
  match rule.how with
  | .cfarel => rule.val.setWidth 30
  | .cfa => 0
  | _ => recorded

/-- `tdep_stash_frame`, on the frame info `f`. -/
def stashFrame (rs : RegState 97 64) (f : Frame) : Frame :=
  if f.frameType = .other ∧ isStandard rs then
    { f with
      frameType := .standard
      cfaRegSp := (rs.reg (cfaRegColumn 97)).val == 31
      cfaRegOffset := (rs.reg (cfaOffColumn 97)).val.setWidth 30
      fpCfaOffset := stashOffset (rs.reg (regColumn x29)) f.fpCfaOffset
      lrCfaOffset := stashOffset (rs.reg (regColumn x30)) f.lrCfaOffset
      spCfaOffset := stashOffset (rs.reg (regColumn sp)) f.spCfaOffset }
  else f

section Access

variable (host : Host) (as : AddrSpace 64) (c : A64Cursor)

/-- The vector granule; a signal context stores the vector length in its place. -/
def accessVg : Result (Word 64) :=
  let loc := c.loc vg
  if loc.isReg then loc.get host.localOnly as
  else if loc.val = 0 then .error (.err .unspec)
  else do
    let (length, _) ← readu16 as loc.val
    pure ((length.setWidth 64 * 8) / 64)

/-- `tdep_access_reg`, for reading. -/
def accessReg (reg : Int) : Result (Word 64) :=
  let fromLoc (r : Fin 97) : Result (Word 64) := (c.loc r).get host.localOnly as
  if valid : 0 ≤ reg ∧ reg.toNat < 97 then
    let r : Fin 97 := ⟨reg.toNat, valid.2⟩
    if r < 4 then
      match c.ehArgs r with
      | some arg => pure arg
      | none => fromLoc r
    else if r = x30 then do
      let lr ← fromLoc r
      pure (host.stripPtrauth lr)
    else if r = sp then pure c.cfa
    else if r < x30 ∨ r = pc ∨ r = pstate then fromLoc r
    else if r = vg then accessVg host as c
    else .error (.err .badreg)
  else .error (.err .badreg)

end Access

/-- The target of aarch64 Linux as this host builds it. -/
def Host.target (host : Host) : Target 97 64 Extra where
  cfi := { windowSave := .aarch64 raSignState, sp }
  localOnly := host.localOnly
  valLocs := false
  regLoc := host.regLoc
  toUnwRegnum r := pure (if r ≤ 95 then r else 0)
  regIp := 30
  accessReg := accessReg host
  stripPtrauth _ := host.stripPtrauth
  stashFrame _ c rs := { c.tdep with frameInfo := stashFrame rs c.tdep.frameInfo }

end Libunwind.AArch64
